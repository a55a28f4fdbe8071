import TinyNetwork.MemoryPool

/-! The books of the small blocks. `held` are the ranges that the blocks have handed
out and not got back, whoever has them. Each block counts the ranges of its own in
quote_ and keeps them below last_; that is all the pool needs to know to hand out
more, and all that a rewind of last_ rests on. -/
namespace TinyNetwork.MemoryBlocks
open Ranges Words

def blockOf (address a : Nat) : Range := ⟨if a = address + sizeofPool then address else a, PAGE_SIZE⟩

@[simp] theorem blockSize (address a : Nat) : (blockOf address a).size = PAGE_SIZE := rfl

structure Block (address : Nat) (small : Nat → SmallNode) (held : List Range) (a : Nat) : Prop where
  aligned : (blockOf address a).base % MP_ALIGNMENT = 0
  word : (blockOf address a).base + PAGE_SIZE < sizeLimit
  limit : (small a).end_ = (blockOf address a).base + PAGE_SIZE
  low : a + sizeofSmallNode + (small a).quote ≤ (small a).last
  high : (small a).last ≤ (small a).end_
  counted : (small a).quote = held.countP (fun h => Within h (blockOf address a))

structure Books (address : Nat) (small : Nat → SmallNode) (nodes : List Nat) (held : List Range) : Prop where
  each : ∀ a ∈ nodes, Block address small held a
  home : ∀ h ∈ held, ∃ a ∈ nodes, a + sizeofSmallNode ≤ h.base ∧ h.base + h.size ≤ (small a).last
  apart : held.Pairwise Apart
  shaped : ∀ h ∈ held, h.base % MP_ALIGNMENT = 0 ∧ 0 < h.size
  blocks : nodes.Pairwise (fun a b => Apart (blockOf address a) (blockOf address b))

theorem blockBase (address a : Nat) :
    (blockOf address a).base ≤ a ∧ a ≤ (blockOf address a).base + sizeofPool := by
  unfold blockOf sizeofPool
  split <;> dsimp only <;> omega

theorem alignSpec {p : Nat} (word : p + MP_ALIGNMENT ≤ sizeLimit) :
    p ≤ mpAlignPtr p ∧ mpAlignPtr p % MP_ALIGNMENT = 0 ∧
      ∀ e, p ≤ e → e % MP_ALIGNMENT = 0 → mpAlignPtr p ≤ e := by
  unfold mpAlignPtr MP_ALIGNMENT sizeLimit at *
  refine ⟨?_, ?_, ?_⟩
  · omega
  · omega
  · intro e le aligned
    omega

section
variable {address : Nat} {small small' : Nat → SmallNode} {nodes : List Nat} {held : List Range}

theorem booksBlocks (books : Books address small nodes held) {a b : Nat} (ha : a ∈ nodes) (hb : b ∈ nodes)
    (ne : a ≠ b) : Apart (blockOf address a) (blockOf address b) := by
  have symm : Std.Symm (fun a b => Apart (blockOf address a) (blockOf address b)) :=
    ⟨fun _ _ apart => apartSymm apart⟩
  exact books.blocks.forall ha hb ne

theorem booksNodup (books : Books address small nodes held) : nodes.Nodup := by
  refine books.blocks.imp ?_
  rintro a _ apart rfl
  unfold Apart blockOf PAGE_SIZE at apart
  dsimp only at apart
  omega

theorem homeWithin {a : Nat} (block : Block address small held a) {h : Range}
    (low : a + sizeofSmallNode ≤ h.base) (high : h.base + h.size ≤ (small a).last) :
    Within h (blockOf address a) := by
  have base := blockBase address a
  have limit := block.limit
  have top := block.high
  unfold Within
  simp only [blockSize]
  omega

theorem homeUnique (books : Books address small nodes held) {h : Range} (nonempty : 0 < h.size)
    {a b : Nat} (ha : a ∈ nodes) (hb : b ∈ nodes) (inA : Within h (blockOf address a))
    (inB : Within h (blockOf address b)) : a = b := by
  by_contra ne
  have apart := booksBlocks books ha hb ne
  unfold Apart Within at *
  omega

theorem blockRoom (books : Books address small nodes held) {a : Nat} (member : a ∈ nodes) :
    (small a).last ≤ mpAlignPtr (small a).last ∧ mpAlignPtr (small a).last % MP_ALIGNMENT = 0 ∧
      mpAlignPtr (small a).last ≤ (small a).end_ := by
  have block := books.each a member
  have aligned := block.aligned
  have word := block.word
  have limit := block.limit
  have high := block.high
  have whole : (small a).end_ % MP_ALIGNMENT = 0 := by
    rw [limit]; unfold MP_ALIGNMENT PAGE_SIZE at *; omega
  have below : (small a).last + MP_ALIGNMENT ≤ sizeLimit := by
    unfold MP_ALIGNMENT PAGE_SIZE sizeLimit at *; omega
  obtain ⟨up, multiple, least⟩ := alignSpec below
  exact ⟨up, multiple, least _ high whole⟩

/- The signed difference is never negative, so the comparison means what it says. -/
theorem roomTest (books : Books address small nodes held) {a : Nat} (member : a ∈ nodes) (size : Nat) :
    size ≤ widen (Int.ofNat (small a).end_ - Int.ofNat (mpAlignPtr (small a).last)) ↔
      mpAlignPtr (small a).last + size ≤ (small a).end_ := by
  obtain ⟨_, _, inside⟩ := blockRoom books member
  have block := books.each a member
  have word := block.word
  have limit := block.limit
  have difference : Int.ofNat (small a).end_ - Int.ofNat (mpAlignPtr (small a).last) =
      Int.ofNat ((small a).end_ - mpAlignPtr (small a).last) := by
    simp only [Int.ofNat_eq_natCast]; omega
  rw [difference, widenNat (by omega)]
  omega

theorem booksPerm {held' : List Range} (perm : held.Perm held') (books : Books address small nodes held) :
    Books address small nodes held' := by
  refine ⟨fun a member => ?_, fun h member => books.home h (perm.mem_iff.mpr member),
    pairwisePerm perm books.apart, fun h member => books.shaped h (perm.mem_iff.mpr member), books.blocks⟩
  obtain ⟨aligned, word, limit, low, high, counted⟩ := books.each a member
  exact ⟨aligned, word, limit, low, high, counted.trans (perm.countP_eq _)⟩

def SameBooks (x y : SmallNode) : Prop := x.end_ = y.end_ ∧ x.last = y.last ∧ x.quote = y.quote

theorem booksFrame (books : Books address small nodes held)
    (same : ∀ a ∈ nodes, SameBooks (small' a) (small a)) : Books address small' nodes held := by
  refine ⟨fun a member => ?_, fun h member => ?_, books.apart, books.shaped, books.blocks⟩
  · obtain ⟨aligned, word, limit, low, high, counted⟩ := books.each a member
    obtain ⟨end_, last, quote⟩ := same a member
    exact ⟨aligned, word, by rw [end_]; exact limit, by rw [quote, last]; exact low,
      by rw [last, end_]; exact high, by rw [quote]; exact counted⟩
  · obtain ⟨a, inside, low, high⟩ := books.home h member
    exact ⟨a, inside, low, by rw [(same a inside).2.1]; exact high⟩

theorem countOther (books : Books address small nodes held) {h : Range} (nonempty : 0 < h.size)
    {a b : Nat} (ha : a ∈ nodes) (hb : b ∈ nodes) (ne : b ≠ a) (inside : Within h (blockOf address a))
    (ranges : List Range) :
    (h :: ranges).countP (fun k => Within k (blockOf address b)) =
      ranges.countP (fun k => Within k (blockOf address b)) := by
  refine List.countP_cons_of_neg ?_
  rw [decide_eq_true_eq]
  exact fun other => ne (homeUnique books nonempty hb ha other inside)

theorem booksUpdate (books : Books address small nodes held) {a : Nat} {node : SmallNode}
    {held' : List Range} (member : a ∈ nodes) (end_ : node.end_ = (small a).end_)
    (low : a + sizeofSmallNode + node.quote ≤ node.last) (high : node.last ≤ node.end_)
    (counted : node.quote = held'.countP (fun h => Within h (blockOf address a)))
    (others : ∀ b ∈ nodes, b ≠ a → held'.countP (fun h => Within h (blockOf address b)) =
      held.countP (fun h => Within h (blockOf address b)))
    (home : ∀ h ∈ held', (a + sizeofSmallNode ≤ h.base ∧ h.base + h.size ≤ node.last) ∨
      ∃ b ∈ nodes, b ≠ a ∧ b + sizeofSmallNode ≤ h.base ∧ h.base + h.size ≤ (small b).last)
    (apart : held'.Pairwise Apart) (shaped : ∀ h ∈ held', h.base % MP_ALIGNMENT = 0 ∧ 0 < h.size) :
    Books address (Function.update small a node) nodes held' := by
  refine ⟨fun b mem => ?_, fun h mem => ?_, apart, shaped, books.blocks⟩
  · have block := books.each b mem
    by_cases same : b = a
    · subst same
      refine ⟨block.aligned, block.word, ?_, ?_, ?_, ?_⟩ <;> rw [Function.update_self]
      · exact end_.trans block.limit
      · exact low
      · exact high
      · exact counted
    · refine ⟨block.aligned, block.word, ?_, ?_, ?_, ?_⟩ <;> rw [Function.update_of_ne same]
      · exact block.limit
      · exact block.low
      · exact block.high
      · exact block.counted.trans (others b mem same).symm
  · rcases home h mem with here | ⟨b, inside, other, there⟩
    · exact ⟨a, member, by rw [Function.update_self]; exact here⟩
    · exact ⟨b, inside, by rw [Function.update_of_ne other]; exact there⟩

def taken (node : SmallNode) (size : Nat) : SmallNode :=
  { node with quote := (node.quote + 1) % uintLimit, last := mpAlignPtr node.last + size }

theorem booksTake (books : Books address small nodes held) {a size : Nat} (member : a ∈ nodes)
    (positive : 0 < size) (fits : mpAlignPtr (small a).last + size ≤ (small a).end_) :
    Books address (Function.update small a (taken (small a) size)) nodes
      (⟨mpAlignPtr (small a).last, size⟩ :: held) := by
  obtain ⟨up, multiple, _⟩ := blockRoom books member
  have block := books.each a member
  have base := blockBase address a
  have low := block.low
  have limit := block.limit
  have count : (taken (small a) size).quote = (small a).quote + 1 := by
    refine Nat.mod_eq_of_lt ?_
    unfold uintLimit PAGE_SIZE sizeofPool at *
    omega
  have last : (taken (small a) size).last = mpAlignPtr (small a).last + size := rfl
  have own : Within ⟨mpAlignPtr (small a).last, size⟩ (blockOf address a) := by
    unfold Within
    simp only [blockSize]
    omega
  have apart : ∀ k ∈ held, Apart ⟨mpAlignPtr (small a).last, size⟩ k := by
    intro k old
    obtain ⟨b, inside, low', high'⟩ := books.home k old
    by_cases same : a = b
    · subst same
      exact .inr (by dsimp only; omega)
    · exact apartWithin (booksBlocks books member inside same) own
        (homeWithin (books.each b inside) low' high')
  refine booksUpdate books member rfl (by rw [count, last]; omega) fits ?_ ?_ ?_
    (List.pairwise_cons.mpr ⟨apart, books.apart⟩)
    (List.forall_mem_cons.mpr ⟨⟨multiple, positive⟩, books.shaped⟩)
  · rw [count, List.countP_cons_of_pos (by simpa using own), block.counted]
  · exact fun b mem other => countOther books positive member mem other own held
  · rintro h (_ | ⟨_, old⟩)
    · exact .inl ⟨by dsimp only; omega, Nat.le_refl _⟩
    · obtain ⟨b, inside, low', high'⟩ := books.home h old
      by_cases same : b = a
      · subst same
        exact .inl ⟨low', by omega⟩
      · exact .inr ⟨b, inside, same, low', high'⟩

/- A range comes back. When it was the last one of its block, nothing is left
below last_ and the block starts over. -/
theorem booksGive {h : Range} (books : Books address small nodes (h :: held)) {a : Nat}
    (member : a ∈ nodes) (own : Within h (blockOf address a)) {node : SmallNode}
    (end_ : node.end_ = (small a).end_) (quote : node.quote + 1 = (small a).quote)
    (last : node.last = (small a).last ∨ (node.quote = 0 ∧ node.last = a + sizeofSmallNode)) :
    Books address (Function.update small a node) nodes held := by
  have block := books.each a member
  have positive := (books.shaped h List.mem_cons_self).2
  have low := block.low
  have high := block.high
  have count : node.quote = held.countP (fun k => Within k (blockOf address a)) := by
    have counted := block.counted
    rw [List.countP_cons_of_pos (by simpa using own)] at counted
    omega
  refine booksUpdate books member end_ (by omega) (by omega) count ?_ ?_
    (List.pairwise_cons.mp books.apart).2 (fun k mem => books.shaped k (List.mem_cons_of_mem _ mem))
  · exact fun b mem other => (countOther books positive member mem other own held).symm
  · intro k mem
    obtain ⟨b, inside, low', high'⟩ := books.home k (List.mem_cons_of_mem _ mem)
    by_cases same : b = a
    · subst same
      rcases last with kept | ⟨zero, _⟩
      · exact .inl ⟨low', by omega⟩
      · rw [zero] at count
        have none_ := List.countP_eq_zero.mp count.symm k mem
        exact absurd (homeWithin block low' high') (by simpa using none_)
    · exact .inr ⟨b, inside, same, low', high'⟩

theorem heldInside (books : Books address small nodes held) :
    ∀ k ∈ held, ∃ a ∈ nodes, Within k (blockOf address a) := by
  intro k mem
  obtain ⟨a, inside, low, high⟩ := books.home k mem
  exact ⟨a, inside, homeWithin (books.each a inside) low high⟩

theorem heldElsewhere (books : Books address small nodes held) {block : Nat}
    (far : ∀ a ∈ nodes, Apart (blockOf address a) (blockOf address block)) :
    held.countP (fun k => Within k (blockOf address block)) = 0 := by
  refine List.countP_eq_zero.mpr (fun k mem => ?_)
  obtain ⟨a, inside, there⟩ := heldInside books k mem
  have apart := far a inside
  have nonempty := (books.shaped k mem).2
  rw [decide_eq_true_eq]
  intro here
  unfold Within Apart at *
  omega

theorem booksGrow (books : Books address small nodes held) {block size : Nat} {node : SmallNode}
    (place : blockOf address block = ⟨block, PAGE_SIZE⟩)
    (aligned : block % MP_ALIGNMENT = 0) (word : block + PAGE_SIZE < sizeLimit)
    (far : ∀ a ∈ nodes, Apart (blockOf address a) ⟨block, PAGE_SIZE⟩)
    (same : ∀ a ∈ nodes, SameBooks (small' a) (small a)) (content : small' block = node)
    (positive : 0 < size) (fits : size ≤ PAGE_SIZE - sizeofSmallNode)
    (end_ : node.end_ = block + PAGE_SIZE) (last : node.last = block + sizeofSmallNode + size)
    (quote : node.quote = 1) :
    Books address small' (nodes ++ [block]) (⟨block + sizeofSmallNode, size⟩ :: held) := by
  have old := booksFrame books same
  have own : Within ⟨block + sizeofSmallNode, size⟩ ⟨block, PAGE_SIZE⟩ := by
    unfold Within PAGE_SIZE sizeofSmallNode at *
    dsimp only
    omega
  refine ⟨?_, ?_, ?_, ?_, ?_⟩
  · intro a mem
    rcases List.mem_append.mp mem with inside | new
    · obtain ⟨aligned', word', limit, low, high, counted⟩ := old.each a inside
      refine ⟨aligned', word', limit, low, high, counted.trans ?_⟩
      refine (List.countP_cons_of_neg ?_).symm
      have apart := far a inside
      rw [decide_eq_true_eq]
      intro here
      unfold Within Apart at *
      dsimp only at *
      omega
    · cases List.mem_singleton.mp new
      refine ⟨?_, ?_, ?_, ?_, ?_, ?_⟩ <;> simp only [place, content]
      · exact aligned
      · exact word
      · exact end_
      · omega
      · unfold PAGE_SIZE sizeofSmallNode at *
        omega
      · rw [quote, List.countP_cons_of_pos (by simpa using own), ← place,
          heldElsewhere books (place ▸ far)]
  · rintro h (_ | ⟨_, mem⟩)
    · exact ⟨block, by simp, Nat.le_refl _, Nat.le_of_eq (by rw [content, last])⟩
    · obtain ⟨a, inside, low, high⟩ := old.home h mem
      exact ⟨a, List.mem_append_left _ inside, low, high⟩
  · refine List.pairwise_cons.mpr ⟨fun k mem => ?_, books.apart⟩
    obtain ⟨a, inside, there⟩ := heldInside books k mem
    exact apartWithin (apartSymm (far a inside)) own there
  · refine List.forall_mem_cons.mpr ⟨⟨?_, positive⟩, books.shaped⟩
    unfold MP_ALIGNMENT sizeofSmallNode at *
    dsimp only
    omega
  · refine List.pairwise_append.mpr ⟨books.blocks, List.pairwise_singleton _ _, ?_⟩
    intro a inside b new
    cases List.mem_singleton.mp new
    rw [place]
    exact far a inside

theorem booksRewind (books : Books address small nodes held)
    (cleared : ∀ a ∈ nodes, (small' a).end_ = (small a).end_ ∧
      (small' a).last = a + sizeofSmallNode ∧ (small' a).quote = 0) : Books address small' nodes [] := by
  refine ⟨fun a mem => ?_, nofun, List.Pairwise.nil, nofun, books.blocks⟩
  obtain ⟨aligned, word, limit, low, high, _⟩ := books.each a mem
  obtain ⟨end_, last, quote⟩ := cleared a mem
  refine ⟨aligned, word, end_.trans limit, ?_, ?_, quote⟩
  · rw [last, quote]
    exact Nat.le_refl _
  · rw [last, end_]
    omega

end
end TinyNetwork.MemoryBlocks
