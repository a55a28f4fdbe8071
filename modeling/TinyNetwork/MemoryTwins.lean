import TinyNetwork.Lockstep
import TinyNetwork.MemoryDisjoint

/-! Two pools on fresh memory of different content. Twin memories have the same
regions and agree on two sets of records that are closed under their links; every
operation whose pointers are in these sets does the same in both. No node loses its
block, because only the region that a descriptor names is ever freed. Only a new region
brings bytes of its own, and of these the code reads quote_ and failed_ of a new block. -/
namespace TinyNetwork.MemoryTwins
open Ranges Words Lockstep Memory MemoryPool MemoryBlocks MemoryCustody MemoryLarges MemoryDisjoint

/- What the region at an address is for: a block of nodes, a large region that no
descriptor names yet, or the large region of a descriptor. -/
inductive Owner where
  | block
  | held
  | cell (d : Nat)

structure Linked (S T : Nat → Prop) (O : Nat → Owner) (m n : Memory) : Prop where
  regions : n.regions = m.regions
  small : ∀ a, S a → n.small a = m.small a
  large : ∀ d, T d → n.large d = m.large d
  smallNext : ∀ a, S a → ∀ b, (m.small a).next = some b → S b
  largeNext : ∀ d, T d → ∀ e, (m.large d).next = some e → T e
  hosted : ∀ a, S a → ∃ r ∈ m.regions, Within ⟨a, sizeofSmallNode⟩ r ∧ O r.base = .block
  named : ∀ d, T d → ∀ p, (m.large d).address = some p → O p = .cell d

structure Twin (S T : Nat → Prop) (O : Nat → Owner) (m n : Memory) : Prop extends Linked S T O m n where
  taken : ∀ p, O p ≠ .block → ∃ r ∈ m.regions, r.base = p ∧ 0 < r.size

theorem agreeUpdate {α : Type} {S : Nat → Prop} {f g : Nat → α} (agree : ∀ a, S a → g a = f a) (a : Nat) (x : α) :
    ∀ b, S b → Function.update g a x b = Function.update f a x b := by
  intro b inside
  by_cases same : b = a
  · rw [same, Function.update_self, Function.update_self]
  · rw [Function.update_of_ne same, Function.update_of_ne same, agree b inside]

section
variable {S T : Nat → Prop} {O : Nat → Owner} {m n : Memory}

theorem twinLive (twin : Linked S T O m n) (r : Range) : n.live r = m.live r := by
  rw [Memory.live, Memory.live, twin.regions]

theorem twinFuel (twin : Linked S T O m n) : n.fuel = m.fuel := by
  rw [Memory.fuel, Memory.fuel, twin.regions]

theorem twinReadSmall (twin : Linked S T O m n) {a : Nat} (inside : S a) :
    Option.Rel (fun x y => y = x ∧ ∀ b, x.next = some b → S b) (m.readSmall a) (n.readSmall a) := by
  unfold readSmall
  refine relIf (by rw [twinLive twin]) (fun _ => .some ⟨twin.small a inside, twin.smallNext a inside⟩) fun _ => .none

theorem twinReadLarge (twin : Linked S T O m n) {d : Nat} (inside : T d) :
    Option.Rel (fun x y => y = x ∧ x = m.large d) (m.readLarge d) (n.readLarge d) := by
  unfold readLarge
  refine relIf (by rw [twinLive twin]) (fun _ => .some ⟨twin.large d inside, rfl⟩) fun _ => .none

theorem twinWriteSmall (twin : Twin S T O m n) (a : Nat) {node : SmallNode} (link : ∀ b, node.next = some b → S b) :
    Option.Rel (Twin S T O) (m.writeSmall a node) (n.writeSmall a node) := by
  unfold writeSmall
  refine relIf (by rw [twinLive twin.toLinked]) (fun _ => .some ?_) fun _ => .none
  refine { twin with small := agreeUpdate twin.small a node, smallNext := ?_ }
  exact (Function.forall_update_iff m.small (p := fun b x => S b → ∀ c, x.next = some c → S c)).mpr
    ⟨fun _ => link, fun b _ => twin.smallNext b⟩

theorem linkedFree (twin : Linked S T O m n) {p : Nat} (large : O p ≠ .block) :
    Option.Rel (Linked S T O) (m.free p) (n.free p) := by
  unfold free
  rw [twin.regions]
  refine relIf .rfl (fun _ => .some ?_) fun _ => .none
  refine { twin with regions := rfl, hosted := fun a inside => ?_ }
  obtain ⟨r, member, within, block⟩ := twin.hosted a inside
  have other : r.base ≠ p := fun same => large (same ▸ block)
  exact ⟨r, (List.mem_eraseP_of_neg (by simpa using other)).mpr member, within, block⟩

theorem twinMemset (twin : Twin S T O m n) (r : Range) : Option.Rel (Twin S T O) (m.memset r) (n.memset r) := by
  unfold memset
  refine relIf (by rw [twinLive twin.toLinked]) (fun _ => .some ?_) fun _ => .none
  refine { twin with
    small := fun a inside => ?_, large := fun d inside => ?_, smallNext := fun a inside => ?_,
    largeNext := fun d inside => ?_, named := fun d inside => ?_ }
  · simp only [twin.small a inside]
  · simp only [twin.large d inside]
  · dsimp only
    split
    · exact twin.smallNext a inside
    · simp [zeroSmall]
  · dsimp only
    split
    · exact twin.largeNext d inside
    · simp [zeroLarge]
  · dsimp only
    split
    · exact twin.named d inside
    · simp [zeroLarge]

theorem twinFindRoom (twin : Twin S T O m n) (size fuel : Nat) {start : Option Nat} (inside : ∀ a, start = some a → S a) :
    Option.Rel (Option.Rel fun x y => y.1 = x.1 ∧ Twin S T O x.2 y.2) (findRoom m size fuel start)
      (findRoom n size fuel start) := by
  induction fuel generalizing start with
  | zero => cases start <;> first | exact .some .none | exact .none
  | succ fuel ih =>
    cases start with
    | none => exact .some .none
    | some cur =>
      simp only [findRoom]
      refine relBind (twinReadSmall twin.toLinked (inside cur rfl)) ?_
      rintro _ node ⟨rfl, link⟩
      refine relIf .rfl (fun _ => ?_) fun _ => ih link
      refine relBind (twinWriteSmall twin cur link) fun m' n' wrote => ?_
      exact .some (.some ⟨rfl, wrote⟩)

theorem twinSkipFailed (twin : Twin S T O m n) (fuel : Nat) {cur current : Nat} (here : S cur) (there : S current) :
    Option.Rel (fun x y => y.2 = x.2 ∧ Twin S T O x.1 y.1 ∧ S x.2.1 ∧ S x.2.2) (skipFailed fuel m cur current)
      (skipFailed fuel n cur current) := by
  induction fuel generalizing m n cur current with
  | zero => exact .none
  | succ fuel ih =>
    simp only [skipFailed]
    refine relBind (twinReadSmall twin.toLinked here) ?_
    rintro _ node ⟨rfl, link⟩
    cases next : node.next with
    | none => exact .some ⟨rfl, twin, here, there⟩
    | some b =>
      have later := link b next
      have onward : S (if 5 ≤ node.failed then b else current) := by
        split <;> assumption
      refine relBind (twinWriteSmall twin cur fun c same => ?_) fun m' n' wrote => ih wrote later onward
      exact link c (next.trans same)

theorem hostedRetag {regions : List Range} {p : Nat} (large : O p ≠ .block) (x : Owner)
    (hosted : ∀ a, S a → ∃ r ∈ regions, Within ⟨a, sizeofSmallNode⟩ r ∧ O r.base = .block) :
    ∀ a, S a → ∃ r ∈ regions, Within ⟨a, sizeofSmallNode⟩ r ∧ Function.update O p x r.base = .block := by
  intro a inside
  obtain ⟨r, member, within, block⟩ := hosted a inside
  have other : r.base ≠ p := fun same => large (same ▸ block)
  exact ⟨r, member, within, by rw [Function.update_of_ne other, block]⟩

theorem takenFreed {p : Nat} (taken : ∀ q, O q ≠ .block → ∃ r ∈ m.regions, r.base = q ∧ 0 < r.size) {m' : Memory}
    (freed : m.free p = some m') :
    ∀ q, Function.update O p .block q ≠ .block → ∃ r ∈ m'.regions, r.base = q ∧ 0 < r.size := by
  intro q large
  have other : q ≠ p := by
    rintro rfl
    exact large (Function.update_self ..)
  rw [Function.update_of_ne other] at large
  obtain ⟨r, member, rfl, positive⟩ := taken q large
  unfold free at freed
  split at freed
  · cases freed
    exact ⟨r, (List.mem_eraseP_of_neg (by simpa using other)).mpr member, rfl, positive⟩
  · contradiction

theorem twinFreeHeld (twin : Twin S T O m n) {p : Nat} (held : O p = .held) :
    Option.Rel (Twin S T (Function.update O p .block)) (m.free p) (n.free p) := by
  have large : O p ≠ .block := by simp [held]
  refine relMonoOf (linkedFree twin.toLinked large) fun m' n' freed linked => ?_
  refine ⟨{ linked with hosted := hostedRetag large .block linked.hosted, named := fun d inside q name => ?_ },
    takenFreed twin.taken freed⟩
  have owner := linked.named d inside q name
  have other : q ≠ p := by
    rintro rfl
    simp [held] at owner
  rw [Function.update_of_ne other, owner]

theorem twinFreeCell (twin : Twin S T O m n) {p d : Nat} (own : O p = .cell d) {node : LargeNode}
    (link : ∀ e, node.next = some e → T e) (empty : node.address = none) :
    Option.Rel (Twin S T (Function.update O p .block)) (m.free p >>= fun m => m.writeLarge d node)
      (n.free p >>= fun n => n.writeLarge d node) := by
  have large : O p ≠ .block := by simp [own]
  refine relBindOf (linkedFree twin.toLinked large) fun m' n' freed linked => ?_
  have taken := takenFreed twin.taken freed
  unfold writeLarge
  refine relIf (by rw [twinLive linked]) (fun _ => .some ?_) fun _ => .none
  refine ⟨{ linked with
    large := agreeUpdate linked.large d node, largeNext := ?_, hosted := hostedRetag large .block linked.hosted,
    named := ?_ }, taken⟩
  · exact (Function.forall_update_iff m'.large (p := fun b x => T b → ∀ c, x.next = some c → T c)).mpr
      ⟨fun _ => link, fun b _ => linked.largeNext b⟩
  · refine (Function.forall_update_iff m'.large
      (p := fun b x => T b → ∀ q, x.address = some q → Function.update O p .block q = .cell b)).mpr ⟨?_, ?_⟩
    · simp [empty]
    · intro e different inside q name
      have owner := linked.named e inside q name
      have other : q ≠ p := by
        rintro rfl
        exact different (Owner.cell.inj (owner.symm.trans own))
      rw [Function.update_of_ne other, owner]

theorem twinTake (twin : Twin S T O m n) {addr d : Nat} (held : O addr = .held) {node : LargeNode}
    (link : ∀ e, node.next = some e → T e) (names : node.address = some addr) :
    Option.Rel (Twin S (fun e => T e ∨ e = d) (Function.update O addr (.cell d))) (m.writeLarge d node)
      (n.writeLarge d node) := by
  have large : O addr ≠ .block := by simp [held]
  unfold writeLarge
  refine relIf (by rw [twinLive twin.toLinked]) (fun _ => .some ?_) fun _ => .none
  refine ⟨⟨twin.regions, twin.small, ?_, twin.smallNext, ?_, hostedRetag large _ twin.hosted, ?_⟩, ?_⟩
  · rintro e (inside | rfl)
    · exact agreeUpdate twin.large d node e inside
    · simp
  · refine (Function.forall_update_iff m.large
      (p := fun e x => (T e ∨ e = d) → ∀ c, x.next = some c → T c ∨ c = d)).mpr ⟨?_, ?_⟩
    · exact fun _ c same => .inl (link c same)
    · intro e other inside c same
      exact .inl (twin.largeNext e (inside.resolve_right other) c same)
  · refine (Function.forall_update_iff m.large (p := fun e x => (T e ∨ e = d) → ∀ q, x.address = some q →
      Function.update O addr (.cell d) q = .cell e)).mpr ⟨?_, ?_⟩
    · intro _ q name
      cases Option.some.inj (names.symm.trans name)
      exact Function.update_self ..
    · intro e different inside q name
      have owner := twin.named e (inside.resolve_right different) q name
      have other : q ≠ addr := by
        rintro rfl
        simp [held] at owner
      rw [Function.update_of_ne other, owner]
  · intro q used
    refine twin.taken q fun block => used ?_
    have other : q ≠ addr := by
      rintro rfl
      exact large block
    rw [Function.update_of_ne other, block]

theorem twinReuseLarge (twin : Twin S T O m n) {addr : Nat} (held : O addr = .held) (size fuel count : Nat)
    {start : Option Nat} (inside : ∀ d, start = some d → T d) :
    Option.Rel (Option.Rel fun m n => ∃ d O', Twin S (fun e => T e ∨ e = d) O' m n)
      (reuseLarge m addr size fuel count start) (reuseLarge n addr size fuel count start) := by
  induction fuel generalizing start count with
  | zero => cases start <;> first | exact .some .none | exact .none
  | succ fuel ih =>
    cases start with
    | none => exact .some .none
    | some cur =>
      simp only [reuseLarge]
      refine relBind (twinReadLarge twin.toLinked (inside cur rfl)) ?_
      rintro _ node ⟨rfl, rfl⟩
      have link := twin.largeNext cur (inside cur rfl)
      refine relIf .rfl (fun _ => ?_) fun _ => relIf .rfl (fun _ => .some .none) fun _ => ih _ link
      exact relBind (twinTake twin held link rfl) fun m' n' wrote => .some (.some ⟨cur, _, wrote⟩)

theorem twinFreeLarge (twin : Twin S T O m n) (p fuel : Nat) {start : Option Nat} (inside : ∀ d, start = some d → T d) :
    Option.Rel (Option.Rel fun m n => ∃ O', Twin S T O' m n) (freeLarge m p fuel start) (freeLarge n p fuel start) := by
  induction fuel generalizing start with
  | zero => cases start <;> first | exact .some .none | exact .none
  | succ fuel ih =>
    cases start with
    | none => exact .some .none
    | some cur =>
      simp only [freeLarge]
      refine relBind (twinReadLarge twin.toLinked (inside cur rfl)) ?_
      rintro _ node ⟨rfl, rfl⟩
      have link := twin.largeNext cur (inside cur rfl)
      refine relIf .rfl (fun found => ?_) fun _ => ih link
      have own := twin.named cur (inside cur rfl) p found
      rw [← bind_assoc, ← bind_assoc]
      exact relBind (twinFreeCell twin own link rfl) fun m' n' wrote => .some (.some ⟨_, wrote⟩)

theorem linkedReleaseLarge (twin : Linked S T O m n) (fuel : Nat) {start : Option Nat}
    (inside : ∀ d, start = some d → T d) :
    Option.Rel (Linked S T O) (releaseLarge m fuel start) (releaseLarge n fuel start) := by
  induction fuel generalizing m n start with
  | zero => cases start <;> first | exact .some twin | exact .none
  | succ fuel ih =>
    cases start with
    | none => exact .some twin
    | some cur =>
      simp only [releaseLarge]
      refine relBind (twinReadLarge twin (inside cur rfl)) ?_
      rintro _ node ⟨rfl, rfl⟩
      have rest : ∀ m' n', Linked S T O m' n' → Option.Rel (Linked S T O)
          (m'.readLarge cur >>= fun node => releaseLarge m' fuel node.next)
          (n'.readLarge cur >>= fun node => releaseLarge n' fuel node.next) := by
        intro m' n' freed
        refine relBind (twinReadLarge freed (inside cur rfl)) ?_
        rintro _ again ⟨rfl, rfl⟩
        exact ih freed (freed.largeNext cur (inside cur rfl))
      cases address : (m.large cur).address with
      | none => exact rest m n twin
      | some p =>
        have own := twin.named cur (inside cur rfl) p address
        exact relBind (linkedFree twin (by simp [own])) rest

theorem twinRewindSmall (twin : Twin S T O m n) (fuel : Nat) {start : Option Nat} (inside : ∀ a, start = some a → S a) :
    Option.Rel (Twin S T O) (rewindSmall m fuel start) (rewindSmall n fuel start) := by
  induction fuel generalizing m n start with
  | zero => cases start <;> first | exact .some twin | exact .none
  | succ fuel ih =>
    cases start with
    | none => exact .some twin
    | some cur =>
      simp only [rewindSmall]
      refine relBind (twinReadSmall twin.toLinked (inside cur rfl)) ?_
      rintro _ node ⟨rfl, link⟩
      exact relBind (twinWriteSmall twin cur link) fun m' n' wrote => ih wrote link

theorem twinAddSmall (twin : Twin S T O m n) {a : Nat} {r : Range} (member : r ∈ m.regions)
    (within : Within ⟨a, sizeofSmallNode⟩ r) (block : O r.base = .block) {node : SmallNode} (last : node.next = none) :
    Option.Rel (Twin (fun b => S b ∨ b = a) T O) (m.writeSmall a node) (n.writeSmall a node) := by
  unfold writeSmall
  refine relIf (by rw [twinLive twin.toLinked]) (fun _ => .some ?_) fun _ => .none
  refine ⟨⟨twin.regions, ?_, twin.large, ?_, twin.largeNext, ?_, twin.named⟩, twin.taken⟩
  · rintro b (inside | rfl)
    · exact agreeUpdate twin.small a node b inside
    · simp
  · refine (Function.forall_update_iff m.small
      (p := fun b x => (S b ∨ b = a) → ∀ c, x.next = some c → S c ∨ c = a)).mpr ⟨?_, ?_⟩
    · simp [last]
    · intro b other inside c link
      exact .inl (twin.smallNext b (inside.resolve_right other) c link)
  · rintro b (inside | rfl)
    · exact twin.hosted b inside
    · exact ⟨r, member, within, block⟩

def SameRegion : Memalign → Memalign → Prop
  | .failed, .failed => True
  | .granted base _, .granted base' _ => base' = base
  | _, _ => False

/- The same block, with the same bytes where quote_ and failed_ will be. -/
def SameBlock : Memalign → Memalign → Prop
  | .failed, .failed => True
  | .granted base content, .granted base' content' => base' = base ∧
      (content' base).quote = (content base).quote ∧ (content' base).failed = (content base).failed
  | _, _ => False

def filled (m : Memory) (base size : Nat) (content : Nat → SmallNode) : Memory :=
  ⟨⟨base, size⟩ :: m.regions, fun a => if base ≤ a ∧ a < base + size then content a else m.small a, m.large⟩

theorem posixGranted (m : Memory) (size base : Nat) (content : Nat → SmallNode) :
    m.posixMemalign size (.granted base content) =
      if Grantable m ⟨base, size⟩ then some (some base, filled m base size content) else none := rfl

theorem freshApart {base size : Nat} (grantable : Grantable m ⟨base, size⟩) {r : Range} (member : r ∈ m.regions)
    (positive : 0 < size) (nonempty : 0 < r.size) : r.base ≠ base := by
  have apart := grantable.2.2.2 r member
  simp only [Apart] at apart
  omega

theorem freshBlock (twin : Twin S T O m n) {base size : Nat} (grantable : Grantable m ⟨base, size⟩)
    (positive : 0 < size) : O base = .block := by
  by_contra large
  obtain ⟨r, member, same, nonempty⟩ := twin.taken base large
  exact freshApart grantable member positive nonempty same

theorem twinFilled (twin : Twin S T O m n) {base size : Nat} (content content' : Nat → SmallNode)
    (grantable : Grantable m ⟨base, size⟩) :
    Twin S T O (filled m base size content) (filled n base size content') := by
  have old : ∀ a, S a → ¬ (base ≤ a ∧ a < base + size) := by
    intro a inside
    obtain ⟨r, member, within, _⟩ := twin.hosted a inside
    have apart := grantable.2.2.2 r member
    simp only [Apart, Within, sizeofSmallNode] at *
    omega
  refine ⟨⟨?_, fun a inside => ?_, twin.large, fun a inside => ?_, twin.largeNext, fun a inside => ?_, twin.named⟩,
    fun p large => ?_⟩
  · simp only [filled, twin.regions]
  · simp only [filled, if_neg (old a inside), twin.small a inside]
  · simp only [filled, if_neg (old a inside)]
    exact twin.smallNext a inside
  · obtain ⟨r, member, rest⟩ := twin.hosted a inside
    exact ⟨r, List.mem_cons_of_mem _ member, rest⟩
  · obtain ⟨r, member, rest⟩ := twin.taken p large
    exact ⟨r, List.mem_cons_of_mem _ member, rest⟩

theorem twinHeld (twin : Twin S T O m n) {base size : Nat} (content content' : Nat → SmallNode)
    (grantable : Grantable m ⟨base, size⟩) (positive : 0 < size) :
    Twin S T (Function.update O base .held) (filled m base size content) (filled n base size content') := by
  have fresh := freshBlock twin grantable positive
  refine { twinFilled twin content content' grantable with
    hosted := fun a inside => ?_, named := fun d inside p name => ?_, taken := fun p large => ?_ }
  · obtain ⟨r, member, within, block⟩ := twin.hosted a inside
    have nonempty : 0 < r.size := by
      simp only [Within, sizeofSmallNode] at within
      omega
    have other := freshApart grantable member positive nonempty
    exact ⟨r, List.mem_cons_of_mem _ member, within, by rw [Function.update_of_ne other, block]⟩
  · have owner := twin.named d inside p name
    have other : p ≠ base := by
      rintro rfl
      simp [fresh] at owner
    rw [Function.update_of_ne other, owner]
  · by_cases same : p = base
    · exact ⟨⟨base, size⟩, List.mem_cons_self, same.symm, positive⟩
    · rw [Function.update_of_ne same] at large
      obtain ⟨r, member, rest⟩ := twin.taken p large
      exact ⟨r, List.mem_cons_of_mem _ member, rest⟩

theorem sameGrantable (regions : n.regions = m.regions) (r : Range) : Grantable m r ↔ Grantable n r := by
  rw [Grantable, Grantable, regions]

theorem relGranted {α : Type} {Q : α → α → Prop} (regions : n.regions = m.regions) (base size : Nat)
    (content content' : Nat → SmallNode) {f g : Option Nat × Memory → Option α}
    (next : Grantable m ⟨base, size⟩ →
      Option.Rel Q (f (some base, filled m base size content)) (g (some base, filled n base size content'))) :
    Option.Rel Q (m.posixMemalign size (.granted base content) >>= f)
      (n.posixMemalign size (.granted base content') >>= g) := by
  have same := sameGrantable regions ⟨base, size⟩
  rw [posixGranted, posixGranted]
  by_cases grantable : Grantable m ⟨base, size⟩
  · rw [if_pos grantable, if_pos (same.mp grantable)]
    exact next grantable
  · rw [if_neg grantable, if_neg (mt same.mpr grantable)]
    exact .none

theorem readFilled {base size : Nat} {content content' : Nat → SmallNode}
    (twin : Linked S T O (filled m base size content) (filled n base size content')) {a : Nat}
    (here : base ≤ a ∧ a < base + size) :
    Option.Rel (fun x y => x = content a ∧ y = content' a) ((filled m base size content).readSmall a)
      ((filled n base size content').readSmall a) := by
  unfold readSmall
  exact relIf (by rw [twinLive twin]) (fun _ => .some ⟨if_pos here, if_pos here⟩) fun _ => .none

def Obtained (S T : Nat → Prop) (O : Nat → Owner) (addr : Option Nat) (m n : Memory) : Prop :=
  match addr with
  | none => Twin S T O m n
  | some p => ∃ O', O' p = .held ∧ Twin S T O' m n

theorem twinRegion (twin : Twin S T O m n) {size : Nat} (positive : 0 < size) {f g : Memalign}
    (same : SameRegion f g) :
    Option.Rel (fun x y => y.1 = x.1 ∧ Obtained S T O x.1 x.2 y.2) (m.posixMemalign size f)
      (n.posixMemalign size g) := by
  cases f with
  | failed =>
    cases g with
    | failed => exact .some ⟨rfl, twin⟩
    | granted => exact same.elim
  | granted base content =>
    cases g with
    | failed => exact same.elim
    | granted base' content' =>
      obtain rfl : base' = base := same
      rw [posixGranted, posixGranted]
      refine relIf (sameGrantable twin.regions _) (fun grantable => .some ⟨rfl, ?_⟩) fun _ => .none
      exact ⟨_, Function.update_self .., twinHeld twin content content' grantable positive⟩

theorem twinNewBlock (twin : Twin S T O m n) {block : Nat} {content content' : Nat → SmallNode}
    (grantable : Grantable m ⟨block, PAGE_SIZE⟩) (quote : (content' block).quote = (content block).quote)
    (failed : (content' block).failed = (content block).failed) (size : Nat) :
    Option.Rel (Twin (fun a => S a ∨ a = block) T O) (newBlock (filled m block PAGE_SIZE content) block size)
      (newBlock (filled n block PAGE_SIZE content') block size) := by
  have both := twinFilled twin content content' grantable
  have here : block ≤ block ∧ block < block + PAGE_SIZE := ⟨Nat.le_refl _, by unfold PAGE_SIZE; omega⟩
  have within : Within ⟨block, sizeofSmallNode⟩ ⟨block, PAGE_SIZE⟩ := by
    simp only [Within, sizeofSmallNode, PAGE_SIZE]
    omega
  refine relBind (readFilled both.toLinked here) ?_
  rintro _ _ ⟨rfl, rfl⟩
  rw [quote, failed]
  exact twinAddSmall both List.mem_cons_self within (freshBlock twin grantable (by decide)) rfl

end

structure PoolTwin (S T : Nat → Prop) (O : Nat → Owner) (s t : MemoryPool) : Prop where
  address : t.address = s.address
  pool : t.pool = s.pool
  memory : Twin S T O s.memory t.memory
  head : S s.pool.head
  current : S s.pool.current
  list : ∀ d, s.pool.largeList = some d → T d

def Alike (s t : MemoryPool) : Prop := ∃ S T O, PoolTwin S T O s t

section
variable {S T : Nat → Prop} {O : Nat → Owner} {s t : MemoryPool}

theorem twinLinkBlock {S' : Nat → Prop} (pools : PoolTwin S T O s t) (more : ∀ a, S a → S' a) {m n : Memory}
    (twin : Twin S' T O m n) {block : Nat} (here : S' block) :
    Option.Rel (PoolTwin S' T O) (s.linkBlock m block) (t.linkBlock n block) := by
  unfold linkBlock
  rw [pools.pool, twinFuel twin.toLinked]
  have current := more _ pools.current
  refine relBind (twinSkipFailed twin m.fuel current current) ?_
  rintro ⟨m', cur, current'⟩ ⟨n', _, _⟩ ⟨same, walked, place, onward⟩
  cases same
  refine relBind (twinReadSmall walked.toLinked place) ?_
  rintro _ last ⟨rfl, _⟩
  refine relBind (twinWriteSmall walked cur fun b same => ?_) fun m'' n'' wrote => .some ?_
  · cases same
    exact here
  · exact ⟨pools.address, rfl, wrote, more _ pools.head, onward, pools.list⟩

theorem poolMemory {T' : Nat → Prop} {O' : Nat → Owner} (pools : PoolTwin S T O s t) (more : ∀ d, T d → T' d)
    {pool : Pool} (same : pool = s.pool) {m n : Memory} (twin : Twin S T' O' m n) :
    PoolTwin S T' O' { s with memory := m } ⟨t.address, pool, n⟩ :=
  ⟨pools.address, same, twin, pools.head, pools.current, fun d first => more d (pools.list d first)⟩

theorem twinMallocSmallNode (pools : PoolTwin S T O s t) (size : Nat) {f g : Memalign} (same : SameBlock f g) :
    Option.Rel (fun x y => y.1 = x.1 ∧ ∃ S', PoolTwin S' T O x.2 y.2) (s.mallocSmallNode size f)
      (t.mallocSmallNode size g) := by
  cases f with
  | failed =>
    cases g with
    | failed => exact .some ⟨rfl, S, pools⟩
    | granted => exact same.elim
  | granted block content =>
    cases g with
    | failed => exact same.elim
    | granted block' content' =>
      obtain ⟨rfl, quote, failed⟩ := same
      refine relGranted pools.memory.regions block' PAGE_SIZE content content' fun grantable => ?_
      refine relBind (twinNewBlock pools.memory grantable quote failed size) fun m n twin => ?_
      refine relBind (twinLinkBlock pools (fun _ => .inl) twin (.inr rfl)) fun s' t' linked => ?_
      exact .some ⟨rfl, _, linked⟩

theorem twinMallocSmall (pools : PoolTwin S T O s t) (size : Nat) {f g : Memalign} (same : SameBlock f g) :
    Option.Rel (fun x y => y.1 = x.1 ∧ ∃ S', PoolTwin S' T O x.2 y.2) (s.mallocSmall size f)
      (t.mallocSmall size g) := by
  unfold mallocSmall
  rw [pools.pool, twinFuel pools.memory.toLinked]
  refine relBind (twinFindRoom pools.memory size s.memory.fuel fun a here => ?_) fun x y found => ?_
  · exact Option.some.inj here ▸ pools.current
  · cases found with
    | none => exact twinMallocSmallNode pools size same
    | @some x y both =>
      obtain ⟨same, twin⟩ := both
      exact .some ⟨congrArg some same, S, poolMemory pools (fun _ => id) rfl twin⟩

theorem twinMallocDescriptor (pools : PoolTwin S T O s t) {addr : Nat} (held : O addr = .held) (size : Nat)
    {f g : Memalign} (same : SameBlock f g) :
    Option.Rel (fun x y => y.1 = x.1 ∧ Alike x.2 y.2) (s.mallocDescriptor addr size f)
      (t.mallocDescriptor addr size g) := by
  unfold mallocDescriptor
  refine relBindPair (R := fun s t => ∃ S', PoolTwin S' T O s t) (twinMallocSmall pools sizeofLargeNode same)
    fun descriptor s' t' grown => ?_
  obtain ⟨S', pools'⟩ := grown
  cases descriptor with
  | none =>
    refine relBind (twinFreeHeld pools'.memory held) fun m n freed => ?_
    exact .some ⟨rfl, S', T, _, poolMemory pools' (fun _ => id) pools'.pool freed⟩
  | some largeNode =>
    simp only
    rw [pools'.pool]
    refine relBind (twinTake pools'.memory held pools'.list rfl) fun m n twin =>
      .some ⟨rfl, S', fun e => T e ∨ e = largeNode, Function.update O addr (.cell largeNode), ?_⟩
    refine ⟨pools'.address, rfl, twin, pools'.head, pools'.current, fun d here => ?_⟩
    exact .inr (Option.some.inj here).symm

theorem twinMallocLarge (pools : PoolTwin S T O s t) {size : Nat} (positive : 0 < size) {f g f' g' : Memalign}
    (region : SameRegion f g) (block : SameBlock f' g') :
    Option.Rel (fun x y => y.1 = x.1 ∧ Alike x.2 y.2) (s.mallocLargeNode size f f') (t.mallocLargeNode size g g') := by
  unfold mallocLargeNode
  refine relBind (twinRegion pools.memory positive region) ?_
  rintro ⟨_, m⟩ ⟨granted, n⟩ ⟨rfl, obtained⟩
  change Obtained S T O granted m n at obtained
  cases granted with
  | none => exact .some ⟨rfl, S, T, O, poolMemory pools (fun _ => id) pools.pool obtained⟩
  | some addr =>
    obtain ⟨O', held, twin⟩ := obtained
    simp only
    rw [pools.pool, twinFuel twin.toLinked]
    refine relBind (twinReuseLarge twin held size m.fuel 0 pools.list) fun x y reused => ?_
    cases reused with
    | none => exact twinMallocDescriptor (poolMemory pools (fun _ => id) rfl twin) held size block
    | some wrote =>
      obtain ⟨d, O'', wrote⟩ := wrote
      exact .some ⟨rfl, S, _, O'', poolMemory pools (fun _ => .inl) rfl wrote⟩

/- What the two runs may differ in: bytes of a large region, and those of a new block
that the code does not read. -/
def SameOutcomes (size : Nat) (f f' g g' : Memalign) : Prop :=
  if PAGE_SIZE - sizeofSmallNode < size then SameRegion f g ∧ SameBlock f' g' else SameBlock f g

theorem twinMalloc (pools : PoolTwin S T O s t) (size : Nat) {f g f' g' : Memalign}
    (same : SameOutcomes size f f' g g') :
    Option.Rel (fun x y => y.1 = x.1 ∧ Alike x.2 y.2) (s.malloc size f f') (t.malloc size g g') := by
  unfold malloc
  unfold SameOutcomes at same
  refine relIf .rfl (fun _ => .some ⟨rfl, S, T, O, pools⟩) fun nonzero => relIf .rfl (fun large => ?_) fun small => ?_
  · rw [if_pos large] at same
    exact twinMallocLarge pools (Nat.pos_of_ne_zero nonzero) same.1 same.2
  · rw [if_neg small] at same
    refine relMono (twinMallocSmall pools size same) ?_
    rintro x y ⟨result, S', pools'⟩
    exact ⟨result, S', T, O, pools'⟩

theorem twinCalloc (pools : PoolTwin S T O s t) (size : Nat) {f g f' g' : Memalign}
    (same : SameOutcomes size f f' g g') :
    Option.Rel (fun x y => y.1 = x.1 ∧ Alike x.2 y.2) (s.calloc size f f') (t.calloc size g g') := by
  unfold calloc
  refine relBindPair (twinMalloc pools size same) fun addr s' t' alike => ?_
  obtain ⟨S', T', O', pools'⟩ := alike
  cases addr with
  | none => exact .some ⟨rfl, S', T', O', pools'⟩
  | some p =>
    refine relBind (twinMemset pools'.memory ⟨p, size⟩) fun m n zeroed => ?_
    exact .some ⟨rfl, S', T', O', poolMemory pools' (fun _ => id) pools'.pool zeroed⟩

theorem twinUnquote (pools : PoolTwin S T O s t) {small : Nat} {node : SmallNode}
    (link : ∀ b, node.next = some b → S b) :
    Option.Rel (PoolTwin S T O) (s.unquote small node) (t.unquote small node) := by
  unfold unquote
  rw [pools.pool, pools.address]
  refine relIf .rfl (fun _ => ?_) fun _ => ?_
  · refine relBind (twinWriteSmall pools.memory small link) fun m n wrote => .some ?_
    exact ⟨rfl, rfl, wrote, pools.head, pools.head, pools.list⟩
  · refine relBind (twinWriteSmall pools.memory small link) fun m n wrote => .some ?_
    exact ⟨rfl, rfl, wrote, pools.head, pools.current, pools.list⟩

theorem twinFreeSmall (pools : PoolTwin S T O s t) (p fuel : Nat) {start : Option Nat}
    (inside : ∀ a, start = some a → S a) :
    Option.Rel (PoolTwin S T O) (s.freeSmall p fuel start) (t.freeSmall p fuel start) := by
  induction fuel generalizing start with
  | zero => cases start <;> first | exact .some pools | exact .none
  | succ fuel ih =>
    cases start with
    | none => exact .some pools
    | some cur =>
      simp only [freeSmall]
      refine relBind (twinReadSmall pools.memory.toLinked (inside cur rfl)) ?_
      rintro _ node ⟨rfl, link⟩
      exact relIf .rfl (fun _ => twinUnquote pools link) fun _ => ih link

theorem twinFreeMemory (pools : PoolTwin S T O s t) (p : Nat) :
    Option.Rel Alike (s.freeMemory p) (t.freeMemory p) := by
  unfold freeMemory
  rw [pools.pool, twinFuel pools.memory.toLinked]
  refine relBind (twinFreeLarge pools.memory p s.memory.fuel pools.list) fun x y freed => ?_
  cases freed with
  | none =>
    refine relMono (twinFreeSmall pools p s.memory.fuel fun a here => Option.some.inj here ▸ pools.head) ?_
    exact fun s' t' pools' => ⟨S, T, O, pools'⟩
  | some after =>
    obtain ⟨O', twin⟩ := after
    exact .some ⟨S, T, O', poolMemory pools (fun _ => id) rfl twin⟩

/- The list is empty afterwards, so the stale addresses are out of reach. -/
theorem twinResetPool (pools : PoolTwin S T O s t) : Option.Rel Alike s.resetPool t.resetPool := by
  unfold resetPool
  rw [pools.pool, twinFuel pools.memory.toLinked]
  refine relBind (linkedReleaseLarge pools.memory.toLinked s.memory.fuel pools.list) fun m n released => ?_
  have forgotten : Twin S (fun _ => False) (fun _ => .block) m n := by
    refine ⟨{ released with
      large := nofun, largeNext := nofun, hosted := fun a inside => ?_, named := nofun }, fun p large => absurd rfl large⟩
    obtain ⟨r, member, within, _⟩ := released.hosted a inside
    exact ⟨r, member, within, rfl⟩
  rw [twinFuel released]
  refine relBind (twinRewindSmall forgotten m.fuel fun a here => Option.some.inj here ▸ pools.head) ?_
  exact fun m' n' rewound => .some ⟨S, _, _, pools.address, rfl, rewound, pools.head, pools.head, nofun⟩

end

end TinyNetwork.MemoryTwins
