import Mathlib.Logic.Function.Basic
import Mathlib.Tactic.Common

/-! Singly linked lists in memory. `next` is the link stored at an address, and a
chain is the list of addresses that following the links from a start visits, up to
the null link. -/
namespace TinyNetwork.Chains

def Chain (next : Nat → Option Nat) : Option Nat → List Nat → Prop
  | start, [] => start = none
  | start, a :: rest => start = some a ∧ Chain next (next a) rest

variable {next next' : Nat → Option Nat}

theorem chainFrame {start : Option Nat} {nodes : List Nat} (chain : Chain next start nodes)
    (same : ∀ a ∈ nodes, next' a = next a) : Chain next' start nodes := by
  induction nodes generalizing start with
  | nil => exact chain
  | cons a rest ih =>
    obtain ⟨first, more⟩ := chain
    refine ⟨first, ?_⟩
    rw [same a List.mem_cons_self]
    exact ih more (fun b member => same b (List.mem_cons_of_mem _ member))

theorem chainUnique {start : Option Nat} {nodes others : List Nat}
    (chain : Chain next start nodes) (other : Chain next start others) : nodes = others := by
  induction nodes generalizing start others with
  | nil =>
    cases others with
    | nil => rfl
    | cons b others => exact absurd (chain.symm.trans other.1) (by simp)
  | cons a nodes ih =>
    cases others with
    | nil => exact absurd (other.symm.trans chain.1) (by simp)
    | cons b others =>
      obtain rfl : a = b := Option.some.inj (chain.1.symm.trans other.1)
      rw [ih chain.2 other.2]

theorem chainFrom {start : Option Nat} {front rest : List Nat} {a : Nat}
    (chain : Chain next start (front ++ a :: rest)) : Chain next (some a) (a :: rest) := by
  induction front generalizing start with
  | nil => exact ⟨rfl, chain.2⟩
  | cons b front ih => exact ih chain.2

theorem chainMember {start : Option Nat} {nodes : List Nat} (chain : Chain next start nodes) {a : Nat}
    (member : a ∈ nodes) :
    ∃ front rest, nodes = front ++ a :: rest ∧ Chain next (some a) (a :: rest) := by
  obtain ⟨front, rest, rfl⟩ := List.append_of_mem member
  exact ⟨front, rest, rfl, chainFrom chain⟩

theorem chainClosed {start : Option Nat} {nodes : List Nat} (chain : Chain next start nodes) {a b : Nat}
    (member : a ∈ nodes) (link : next a = some b) : b ∈ nodes := by
  obtain ⟨front, rest, rfl, _, more⟩ := chainMember chain member
  rw [link] at more
  cases rest with
  | nil => exact absurd more (by simp [Chain])
  | cons c rest =>
    cases Option.some.inj more.1
    simp

theorem chainSnoc {start : Option Nat} {nodes : List Nat} {last a : Nat}
    (chain : Chain next start (nodes ++ [last]))
    (same : ∀ b ∈ nodes, next' b = next b) (link : next' last = some a) (end_ : next' a = none) :
    Chain next' start (nodes ++ [last] ++ [a]) := by
  induction nodes generalizing start with
  | nil => exact ⟨chain.1, link, end_⟩
  | cons b nodes ih =>
    obtain ⟨first, more⟩ := chain
    refine ⟨first, ?_⟩
    rw [same b List.mem_cons_self]
    exact ih more (fun c member => same c (List.mem_cons_of_mem _ member))

end TinyNetwork.Chains
