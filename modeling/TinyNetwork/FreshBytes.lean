import TinyNetwork.MemoryTwins

/-! What a pool makes of fresh bytes. Two runs of the same calls on the same addresses
agree in every answer and in every record the pool can reach, as long as the fields
that the code leaves uninitialised have the same values in both: quote_ of the first
node, whose next_ must be null, and quote_ and failed_ of every later block. -/
namespace TinyNetwork.FreshBytes
open Ranges Runs Lockstep Memory MemoryPool MemoryBlocks MemoryCustody MemoryLarges MemoryDisjoint MemoryTwins

def SameFirst : Memalign → Memalign → Prop
  | .failed, .failed => True
  | .granted base content, .granted base' content' =>
      base' = base ∧ (content' (base + sizeofPool)).quote = (content (base + sizeofPool)).quote ∧
      (content (base + sizeofPool)).next = none ∧ (content' (base + sizeofPool)).next = none
  | _, _ => False

def SameCall : Action → Action → Prop
  | .malloc size f f', .malloc size' g g' => size' = size ∧ SameOutcomes size f f' g g'
  | .calloc size f f', .calloc size' g g' => size' = size ∧ SameOutcomes size f f' g g'
  | .freeMemory p, .freeMemory q => q = p
  | .resetPool, .resetPool => True
  | _, _ => False

def answer (s : State) : Action → Option Nat
  | .malloc size first second => (s.pool.malloc size first second).bind Prod.fst
  | .calloc size first second => (s.pool.calloc size first second).bind Prod.fst
  | .freeMemory _ => none
  | .resetPool => none

def answers : State → List Action → List (Option Nat)
  | _, [] => []
  | s, a :: rest =>
      answer s a ::
        match step s a with
        | none => []
        | some t => answers t rest

structure SamePool (s t : MemoryPool) : Prop where
  address : t.address = s.address
  pool : t.pool = s.pool
  regions : t.memory.regions = s.memory.regions
  small : ∀ a, SmallReachable s a → t.memory.small a = s.memory.small a
  large : ∀ d, LargeReachable s d → t.memory.large d = s.memory.large d

section
variable {S T : Nat → Prop} {O : Nat → Owner} {s t : MemoryPool}

theorem reachedSmall (pools : PoolTwin S T O s t) {a : Nat} (reached : SmallReachable s a) : S a := by
  induction reached with
  | head => exact pools.head
  | current => exact pools.current
  | next _ link ih => exact pools.memory.smallNext _ ih _ link

theorem reachedLarge (pools : PoolTwin S T O s t) {d : Nat} (reached : LargeReachable s d) : T d := by
  induction reached with
  | first link => exact pools.list _ link
  | next _ link ih => exact pools.memory.largeNext _ ih _ link

theorem samePool (alike : Alike s t) : SamePool s t := by
  obtain ⟨S, T, O, pools⟩ := alike
  refine ⟨pools.address, pools.pool, pools.memory.regions, fun a reached => ?_, fun d reached => ?_⟩
  · exact pools.memory.small a (reachedSmall pools reached)
  · exact pools.memory.large d (reachedLarge pools reached)

end

theorem createAlike {m n : Memory} (regions : n.regions = m.regions) {f g : Memalign} (first : SameFirst f g) :
    Option.Rel (Option.Rel Alike) (createPool m f) (createPool n g) := by
  cases f with
  | failed =>
    cases g with
    | failed => exact .some .none
    | granted => exact first.elim
  | granted base content =>
    cases g with
    | failed => exact first.elim
    | granted base' content' =>
      obtain ⟨rfl, quote, next, next'⟩ := first
      have before : Twin (fun _ => False) (fun _ => False) (fun _ => .block) m n :=
        ⟨⟨regions, nofun, nofun, nofun, nofun, nofun, nofun⟩, fun p large => absurd rfl large⟩
      refine relGranted regions base' PAGE_SIZE content content' fun grantable => ?_
      have both := twinFilled before content content' grantable
      have here : base' ≤ base' + sizeofPool ∧ base' + sizeofPool < base' + PAGE_SIZE := by
        simp only [sizeofPool, PAGE_SIZE]
        omega
      have within : Within ⟨base' + sizeofPool, sizeofSmallNode⟩ ⟨base', PAGE_SIZE⟩ := by
        simp only [Within, sizeofPool, sizeofSmallNode, PAGE_SIZE]
        omega
      refine relBind (readFilled both.toLinked here) ?_
      rintro _ _ ⟨rfl, rfl⟩
      rw [quote, next, next']
      refine relBind (twinAddSmall both List.mem_cons_self within rfl rfl) fun m' n' wrote => .some (.some ?_)
      exact ⟨_, _, _, rfl, rfl, wrote, .inr rfl, .inr rfl, fun _ large => by cases large⟩

structure Related (s t : State) : Prop where
  live : t.live = s.live
  alike : Alike s.pool t.pool

theorem mallocAlike {s t : State} (related : Related s t) {size : Nat} {f f' g g' : Memalign}
    (same : SameOutcomes size f f' g g') :
    Option.Rel (fun x y => y.1 = x.1 ∧ Alike x.2 y.2) (s.pool.malloc size f f') (t.pool.malloc size g g') := by
  obtain ⟨S, T, O, pools⟩ := related.alike
  exact twinMalloc pools size same

theorem callocAlike {s t : State} (related : Related s t) {size : Nat} {f f' g g' : Memalign}
    (same : SameOutcomes size f f' g g') :
    Option.Rel (fun x y => y.1 = x.1 ∧ Alike x.2 y.2) (s.pool.calloc size f f') (t.pool.calloc size g g') := by
  obtain ⟨S, T, O, pools⟩ := related.alike
  exact twinCalloc pools size same

theorem receivedAlike {s t : State} (live : t.live = s.live) {x y : Option (Option Nat × MemoryPool)}
    (both : Option.Rel (fun x y => y.1 = x.1 ∧ Alike x.2 y.2) x y) (size : Nat) :
    Option.Rel Related (x >>= fun r => some (received s.live size r))
      (y >>= fun r => some (received t.live size r)) := by
  refine relBindPair both fun result p q alike => .some ?_
  cases result with
  | none => exact ⟨live, alike⟩
  | some addr => exact ⟨by simp only [received, live], alike⟩

theorem firstAlike {x y : Option (Option Nat × MemoryPool)}
    (both : Option.Rel (fun x y => y.1 = x.1 ∧ Alike x.2 y.2) x y) : y.bind Prod.fst = x.bind Prod.fst := by
  cases both with
  | none => rfl
  | some after => exact after.1

theorem callAlike {s t : State} (related : Related s t) {a b : Action} (same : SameCall a b) :
    answer t b = answer s a ∧ Option.Rel Related (step s a) (step t b) := by
  cases a with
  | malloc size f f' =>
    cases b with
    | malloc size' g g' =>
      obtain ⟨rfl, outcomes⟩ := same
      have both := mallocAlike related outcomes
      exact ⟨firstAlike both, receivedAlike related.live both size'⟩
    | calloc | freeMemory | resetPool => exact same.elim
  | calloc size f f' =>
    cases b with
    | calloc size' g g' =>
      obtain ⟨rfl, outcomes⟩ := same
      have both := callocAlike related outcomes
      exact ⟨firstAlike both, receivedAlike related.live both size'⟩
    | malloc | freeMemory | resetPool => exact same.elim
  | freeMemory p =>
    cases b with
    | freeMemory q =>
      obtain rfl : q = p := same
      obtain ⟨S, T, O, pools⟩ := related.alike
      refine ⟨rfl, relBind (twinFreeMemory pools q) fun x y alike => .some ⟨?_, alike⟩⟩
      simp only [related.live]
    | malloc | calloc | resetPool => exact same.elim
  | resetPool =>
    cases b with
    | resetPool =>
      obtain ⟨S, T, O, pools⟩ := related.alike
      exact ⟨rfl, relBind (twinResetPool pools) fun x y alike => .some ⟨rfl, alike⟩⟩
    | malloc | calloc | freeMemory => exact same.elim

theorem stepAlike {s t : State} {a b : Action} (related : Related s t) (same : SameCall a b) :
    Option.Rel Related (step s a) (step t b) :=
  (callAlike related same).2

theorem answersAlike {s t : State} (related : Related s t) {actions others : List Action}
    (same : List.Forall₂ SameCall actions others) : answers t others = answers s actions := by
  induction same generalizing s t with
  | nil => rfl
  | @cons a b _ _ first _ ih =>
    obtain ⟨answered, both⟩ := callAlike related first
    simp only [answers, answered]
    generalize step s a = x, step t b = y at both ⊢
    cases both with
    | none => rfl
    | some after => exact congrArg (answer s a :: ·) (ih after)

theorem freshBytes {m n : Memory} (regions : n.regions = m.regions) {f g : Memalign} (first : SameFirst f g)
    {pool : MemoryPool} (created : createPool m f = some (some pool)) {actions others : List Action}
    (same : List.Forall₂ SameCall actions others) :
    ∃ twin, createPool n g = some (some twin) ∧ SamePool pool twin ∧
      answers ⟨twin, []⟩ others = answers ⟨pool, []⟩ actions ∧
      Option.Rel (fun s t => t.live = s.live ∧ SamePool s.pool t.pool) (run step ⟨pool, []⟩ actions)
        (run step ⟨twin, []⟩ others) ∧
      (m.regions = [] → CleanFirst m f → Along step CleanAllowed ⟨pool, []⟩ actions →
        ∃ last, run step ⟨pool, []⟩ actions = some last) := by
  obtain ⟨made, created', both⟩ := relOf (createAlike regions first) created
  cases both with
  | @some _ twin alike =>
    have related : Related ⟨pool, []⟩ ⟨twin, []⟩ := ⟨rfl, alike⟩
    refine ⟨twin, created', samePool alike, answersAlike related same, ?_, fun empty clean allowed => ?_⟩
    · have ended : Option.Rel Related (run step ⟨pool, []⟩ actions) (run step ⟨twin, []⟩ others) :=
        runLockstep (A := SameCall) stepAlike related same
      exact relMono ended fun s t after => ⟨after.live, samePool after.alike⟩
    · obtain ⟨last, done, _⟩ := runProgress stepClean (createKept empty clean created) allowed
      exact ⟨last, done⟩

/- Bytes that differ from zeros where the code does not read them. -/
def scribbled : Nat → SmallNode := fun _ => ⟨11, 12, 0, 0, none⟩

def firstCalls : List Action := [.malloc 5000 (zeroed 65536) .failed, .malloc 100 .failed .failed, .freeMemory 65536]

def secondCalls : List Action :=
  [.malloc 5000 (.granted 65536 scribbled) .failed, .malloc 100 .failed .failed, .freeMemory 65536]

theorem freshBytesSample :
    (run step ⟨samplePool, []⟩ firstCalls).isSome = true ∧
    ∃ twin, createPool untouched (.granted 4096 scribbled) = some (some twin) ∧ SamePool samplePool twin ∧
      answers ⟨twin, []⟩ secondCalls = answers ⟨samplePool, []⟩ firstCalls ∧
      Option.Rel (fun s t => t.live = s.live ∧ SamePool s.pool t.pool) (run step ⟨samplePool, []⟩ firstCalls)
        (run step ⟨twin, []⟩ secondCalls) := by
  have first : SameFirst (zeroed 4096) (.granted 4096 scribbled) := ⟨rfl, rfl, rfl, rfl⟩
  have same : List.Forall₂ SameCall firstCalls secondCalls :=
    .cons ⟨rfl, rfl, trivial⟩ (.cons ⟨rfl, trivial⟩ (.cons rfl .nil))
  obtain ⟨twin, created, begun, answered, ended, _⟩ := freshBytes rfl first sampleCreated same
  exact ⟨by decide +kernel, twin, created, begun, answered, ended⟩

/- Memory that was in use before: the first node starts with seven references. -/
def recycled : Memalign := .granted 4096 fun _ => { zeroSmall with quote := 7 }

def reuseCalls : List Action := [.malloc 100 .failed .failed, .freeMemory 4160, .malloc 100 .failed .failed]

theorem recycledBytesShow :
    createPool untouched (zeroed 4096) = some (some samplePool) ∧
    answers ⟨samplePool, []⟩ reuseCalls = [some 4160, none, some 4160] ∧
    ∃ pool, createPool untouched recycled = some (some pool) ∧ (pool.memory.small 4120).quote = 7 ∧
      answers ⟨pool, []⟩ reuseCalls = [some 4160, none, some 4272] := by
  refine ⟨rfl, by decide +kernel, _, rfl, ?_, ?_⟩
  · decide +kernel
  · decide +kernel

end TinyNetwork.FreshBytes
