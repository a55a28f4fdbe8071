import TinyNetwork.PollerMirror

/-! What disableAll does to epoll. The index of the channel is looked at before its
events: a channel that epoll has is deleted there, and one that epoll does not have is
added, without any events. So a second call undoes the first, whatever the index was. -/
namespace TinyNetwork.PollerDisable
open Runs EPollPoller PollerMirror

def Disables (s : EPollPoller) (p : Nat) : Prop :=
  ∃ t u c d, s.disableAll p = some t ∧ t.disableAll p = some u ∧ t.objects p = some c ∧ u.objects p = some d ∧
    t.epoll c.fd = none ∧ u.epoll = t.epoll ∧ d.index = c.index

structure Toggles (s t u : EPollPoller) (p : Nat) (c : Channel) : Prop where
  first : s.disableAll p = some t
  second : t.disableAll p = some u
  removed : t.epoll c.fd = none ↔ c.index = .kAdded
  again : u.epoll c.fd = none ↔ c.index ≠ .kAdded

theorem disableAllNone (c : Channel) : c.disableAll.isNoneEvent = true := by
  obtain ⟨fd, ⟨a, b, out, d, e⟩, revents, index⟩ := c
  simp [Channel.disableAll, Channel.isNoneEvent, EpollMask.and, Channel.kNoneEvent]

section
variable {fds : Nat → Option Nat} {s : EPollPoller} {p : Nat} {c : Channel}

theorem absentIff (inv : Inv fds s) (there : s.objects p = some c) : s.epoll c.fd = none ↔ c.index ≠ .kAdded := by
  rw [ne_eq, (mirrorsOf inv there).added, Option.not_isSome_iff_eq_none]

theorem disableAllSpec (distinct : ∀ p q fd, fds p = some fd → fds q = some fd → p = q) (inv : Inv fds s)
    (there : s.objects p = some c) :
    ∃ t d, s.disableAll p = some t ∧ Inv fds t ∧ t.objects p = some d ∧ d.fd = c.fd ∧
      (d.index = .kAdded ↔ c.index ≠ .kAdded) := by
  by_cases present : c.index = .kAdded
  · obtain ⟨t, ok, inv', object⟩ := modifyInv distinct inv there present (f := Channel.disableAll) rfl rfl
    rw [if_pos (disableAllNone c)] at object
    exact ⟨t, _, ok, inv', object, rfl, by simp [present]⟩
  · obtain ⟨t, ok, inv', object⟩ := addInv distinct inv there present (f := Channel.disableAll) rfl rfl
    exact ⟨t, _, ok, inv', object, rfl, by simp [present]⟩

theorem togglesOf (distinct : ∀ p q fd, fds p = some fd → fds q = some fd → p = q) (inv : Inv fds s)
    (there : s.objects p = some c) : (∃ t u, Toggles s t u p c) ∧ ¬ Disables s p := by
  obtain ⟨t, d, first, invT, thereT, fdT, indexT⟩ := disableAllSpec distinct inv there
  obtain ⟨u, e, second, invU, thereU, fdU, indexU⟩ := disableAllSpec distinct invT thereT
  have removed : t.epoll c.fd = none ↔ c.index = .kAdded := by
    rw [← fdT, absentIff invT thereT, ne_eq, indexT, not_not]
  have again : u.epoll c.fd = none ↔ c.index ≠ .kAdded := by
    rw [← fdT, ← fdU, absentIff invU thereU, ne_eq, indexU, not_not, indexT]
  refine ⟨⟨t, u, first, second, removed, again⟩, ?_⟩
  rintro ⟨t', u', c', _, first', second', thereT', _, gone, same, _⟩
  cases Option.some.inj (first.symm.trans first')
  cases Option.some.inj (second.symm.trans second')
  cases Option.some.inj (thereT.symm.trans thereT')
  rw [fdT] at gone
  have still : u.epoll c.fd = none := by rw [same, gone]
  exact again.mp still (removed.mp gone)

end

theorem neverDisables {fds : Nat → Option Nat}
    (distinct : ∀ p q fd, fds p = some fd → fds q = some fd → p = q) {actions : List Action}
    (present : ∀ a ∈ actions, (fds a.channel).isSome) :
    ∃ s, run step (unused fds) actions = some s ∧ ∀ p, (fds p).isSome →
      ∃ c, s.objects p = some c ∧ (∃ t u, Toggles s t u p c) ∧ ¬ Disables s p := by
  obtain ⟨s, ok, inv⟩ := runProgress (fun inv present => stepInv distinct inv present) (unusedInv fds)
    (alongOf (fun _ a member => present a member) _)
  refine ⟨s, ok, fun p made => ?_⟩
  rw [← inv.fds p, Option.isSome_map] at made
  obtain ⟨c, there⟩ := Option.isSome_iff_exists.mp made
  obtain ⟨toggles, never⟩ := togglesOf distinct inv there
  exact ⟨c, there, toggles, never⟩

def onlyFive (p : Nat) : Option Nat := if p = 0 then some 5 else none

theorem neverDisablesSample :
    ∃ s, run step (unused onlyFive) [⟨0, .enableReading⟩] = some s ∧ ¬ Disables s 0 := by
  have distinct : ∀ p q fd, onlyFive p = some fd → onlyFive q = some fd → p = q := by
    intro p q fd
    grind [onlyFive]
  have present : ∀ a ∈ [(⟨0, .enableReading⟩ : Action)], (onlyFive a.channel).isSome := by decide
  obtain ⟨s, ok, each⟩ := neverDisables distinct present
  obtain ⟨c, _, _, never⟩ := each 0 (by decide)
  exact ⟨s, ok, never⟩

/- A channel that was enabled and disabled, so that epoll does not have it: disableAll
puts it there. -/
theorem disabledTwice :
    ∃ s t c, run step (unused onlyFive) [⟨0, .enableReading⟩, ⟨0, .disableAll⟩] = some s ∧
      s.epoll 5 = none ∧ s.disableAll 0 = some t ∧ t.objects 0 = some c ∧
      t.epoll 5 = some (Channel.kNoneEvent, 0) ∧ c.index = .kAdded ∧ ¬ Disables s 0 := by
  refine ⟨_, _, _, rfl, rfl, rfl, rfl, rfl, rfl, ?_⟩
  rintro ⟨t, u, c, _, first, _, there, _, gone, _⟩
  cases Option.some.inj first
  cases Option.some.inj there
  cases gone

end TinyNetwork.PollerDisable
