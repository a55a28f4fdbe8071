import TinyNetwork.EPollPoller
import TinyNetwork.Runs

/-! The poller against the kernel. The index of a channel, the map of the poller and
the interest set of the epoll instance say the same about every channel, whatever is
enabled, disabled and removed in whatever order, because a call touches nothing but
the channel's own descriptor. -/
namespace TinyNetwork.PollerMirror
open Runs EPollPoller

inductive Call where
  | enableReading
  | disableReading
  | enableWriting
  | disableWriting
  | disableAll
  | remove
  deriving DecidableEq, Repr

structure Action where
  channel : Nat
  call : Call
  deriving DecidableEq, Repr

def step (s : EPollPoller) (a : Action) : Option EPollPoller :=
  match a.call with
  | .enableReading => s.enableReading a.channel
  | .disableReading => s.disableReading a.channel
  | .enableWriting => s.enableWriting a.channel
  | .disableWriting => s.disableWriting a.channel
  | .disableAll => s.disableAll a.channel
  | .remove => s.remove a.channel

def Registered (channels : Option Nat) (epoll : Option (EpollMask × Nat)) (pointer : Nat)
    (events : EpollMask) : PollerIndex → Prop
  | .kNew => channels = none ∧ epoll = none
  | .kAdded => channels = some pointer ∧ epoll = some (events, pointer)
  | .kDeleted => channels = some pointer ∧ epoll = none

structure Inv (fds : Nat → Option Nat) (s : EPollPoller) : Prop where
  fds : ∀ p, (s.objects p).map Channel.fd = fds p
  clean : s.failures = []
  each : ∀ p c, s.objects p = some c →
    Registered (s.channels c.fd) (s.epoll c.fd) p c.events c.index

theorem turnInv {fds : Nat → Option Nat} {s t : EPollPoller} {p : Nat} {c d : Channel}
    (distinct : ∀ p q fd, fds p = some fd → fds q = some fd → p = q) (inv : Inv fds s)
    (there : s.objects p = some c) (same : d.fd = c.fd)
    (objects : t.objects = Function.update s.objects p (some d))
    (channels : ∀ fd ≠ c.fd, t.channels fd = s.channels fd) (epoll : ∀ fd ≠ c.fd, t.epoll fd = s.epoll fd)
    (failures : t.failures = []) (own : Registered (t.channels c.fd) (t.epoll c.fd) p d.events d.index) :
    Inv fds t := by
  refine ⟨fun q => ?_, failures, fun q e found => ?_⟩
  · rw [← inv.fds q, objects]
    by_cases here : q = p
    · subst here
      simp [there, same]
    · rw [Function.update_of_ne here]
  · rw [objects] at found
    by_cases here : q = p
    · subst here
      rw [Function.update_self] at found
      cases Option.some.inj found
      rw [same]
      exact own
    · rw [Function.update_of_ne here] at found
      have apart : e.fd ≠ c.fd := by
        intro equal
        refine here (distinct q p c.fd ?_ ?_)
        · rw [← inv.fds q, found, ← equal]
          rfl
        · rw [← inv.fds p, there]
          rfl
      rw [channels e.fd apart, epoll e.fd apart]
      exact inv.each q e found

section
variable {fds : Nat → Option Nat} {s : EPollPoller} {p : Nat} {c : Channel}
  (distinct : ∀ p q fd, fds p = some fd → fds q = some fd → p = q)
include distinct

theorem addInv (inv : Inv fds s) (there : s.objects p = some c) (absent : c.index ≠ .kAdded)
    {f : Channel → Channel} (fd : (f c).fd = c.fd) (index : (f c).index = c.index) :
    ∃ t, s.change p f = some t ∧ Inv fds t ∧ t.objects p = some { f c with index := .kAdded } := by
  have own := inv.each p c there
  let d : Channel := { f c with index := .kAdded }
  let channels := if c.index = .kNew then Function.update s.channels c.fd (some p) else s.channels
  let t : EPollPoller :=
    ⟨Function.update s.objects p (some d), channels,
      Function.update s.epoll c.fd (some ((f c).events, p)), s.failures⟩
  have split_ : c.index = .kNew ∨ c.index = .kDeleted := by
    cases here : c.index <;> simp_all
  have outside : s.epoll c.fd = none := by
    rcases split_ with here | here <;> rw [here] at own <;> exact own.2
  have mapped : channels c.fd = some p := by
    rcases split_ with here | here
    · simp [channels, here]
    · rw [here] at own
      simpa [channels, here] using own.1
  refine ⟨t, ?_, turnInv (d := d) distinct inv there fd rfl ?_ ?_ inv.clean ⟨mapped, by simp [t, d]⟩,
    Function.update_self ..⟩
  · simp [change, updateChannel, there, fd, index, split_, setIndex, update, epollCtl, outside, t, channels, d]
  · intro other apart
    simp only [t, channels]
    split
    · exact Function.update_of_ne apart _ _
    · rfl
  · intro other apart
    exact Function.update_of_ne apart _ _

theorem modifyInv (inv : Inv fds s) (there : s.objects p = some c) (present : c.index = .kAdded)
    {f : Channel → Channel} (fd : (f c).fd = c.fd) (index : (f c).index = c.index) :
    ∃ t, s.change p f = some t ∧ Inv fds t ∧
      t.objects p = some (if (f c).isNoneEvent then { f c with index := .kDeleted } else f c) := by
  have own := inv.each p c there
  rw [present] at own
  obtain ⟨mapped, inside⟩ := own
  by_cases nothing : (f c).isNoneEvent
  · let d : Channel := { f c with index := .kDeleted }
    let t : EPollPoller :=
      ⟨Function.update s.objects p (some d), s.channels, Function.update s.epoll c.fd none, s.failures⟩
    refine ⟨t, ?_, turnInv (d := d) distinct inv there fd rfl (fun _ _ => rfl) ?_ inv.clean
      ⟨mapped, by simp [t]⟩, by rw [if_pos nothing]; exact Function.update_self ..⟩
    · simp [change, updateChannel, there, fd, index, present, nothing, setIndex, update, epollCtl, inside, t, d]
    · intro other apart
      exact Function.update_of_ne apart _ _
  · let t : EPollPoller :=
      ⟨Function.update s.objects p (some (f c)), s.channels,
        Function.update s.epoll c.fd (some ((f c).events, p)), s.failures⟩
    refine ⟨t, ?_, turnInv (d := f c) distinct inv there fd rfl (fun _ _ => rfl) ?_ inv.clean ?_,
      by rw [if_neg nothing]; exact Function.update_self ..⟩
    · simp [change, updateChannel, there, fd, index, present, nothing, update, epollCtl, inside, t]
    · intro other apart
      exact Function.update_of_ne apart _ _
    · rw [index, present]
      exact ⟨mapped, by simp [t]⟩

theorem changeInv (inv : Inv fds s) (there : s.objects p = some c) {f : Channel → Channel}
    (fd : (f c).fd = c.fd) (index : (f c).index = c.index) : ∃ t, s.change p f = some t ∧ Inv fds t := by
  by_cases present : c.index = .kAdded
  · obtain ⟨t, ok, inv', _⟩ := modifyInv distinct inv there present fd index
    exact ⟨t, ok, inv'⟩
  · obtain ⟨t, ok, inv', _⟩ := addInv distinct inv there present fd index
    exact ⟨t, ok, inv'⟩

theorem removeInv (inv : Inv fds s) (there : s.objects p = some c) : ∃ t, s.remove p = some t ∧ Inv fds t := by
  have own := inv.each p c there
  let d : Channel := { c with index := .kNew }
  let epoll := if c.index = .kAdded then Function.update s.epoll c.fd none else s.epoll
  let t : EPollPoller :=
    ⟨Function.update s.objects p (some d), Function.update s.channels c.fd none, epoll, s.failures⟩
  have gone : epoll c.fd = none := by
    cases here : c.index with
    | kNew => rw [here] at own; simpa [epoll, here] using own.2
    | kAdded => simp [epoll, here]
    | kDeleted => rw [here] at own; simpa [epoll, here] using own.2
  refine ⟨t, ?_, turnInv (d := d) distinct inv there rfl rfl ?_ ?_ inv.clean ⟨by simp [t], gone⟩⟩
  · by_cases present : c.index = .kAdded
    · rw [present] at own
      simp [remove, removeChannel, there, present, update, epollCtl, own.2, setIndex, t, d, epoll]
    · simp [remove, removeChannel, there, present, setIndex, t, d, epoll]
  · intro other apart
    exact Function.update_of_ne apart _ _
  · intro other apart
    simp only [t, epoll]
    split
    · exact Function.update_of_ne apart _ _
    · rfl

theorem stepInv {a : Action} (inv : Inv fds s) (present : (fds a.channel).isSome) :
    ∃ t, step s a = some t ∧ Inv fds t := by
  rw [← inv.fds a.channel, Option.isSome_map] at present
  obtain ⟨c, there⟩ := Option.isSome_iff_exists.mp present
  obtain ⟨channel, call⟩ := a
  cases call with
  | enableReading => exact changeInv distinct inv there rfl rfl
  | disableReading => exact changeInv distinct inv there rfl rfl
  | enableWriting => exact changeInv distinct inv there rfl rfl
  | disableWriting => exact changeInv distinct inv there rfl rfl
  | disableAll => exact changeInv distinct inv there rfl rfl
  | remove => exact removeInv distinct inv there

end

def unused (fds : Nat → Option Nat) : EPollPoller :=
  ⟨fun p => (fds p).map Channel.make, fun _ => none, fun _ => none, []⟩

theorem unusedInv (fds : Nat → Option Nat) : Inv fds (unused fds) := by
  refine ⟨fun p => ?_, rfl, fun p c found => ?_⟩
  · cases present : fds p <;> simp [unused, present, Channel.make]
  · obtain ⟨fd, _, rfl⟩ := Option.map_eq_some_iff.mp found
    exact ⟨rfl, rfl⟩

structure Mirrors (s : EPollPoller) (p : Nat) (c : Channel) : Prop where
  added : c.index = .kAdded ↔ (s.epoll c.fd).isSome
  registration : ∀ event, s.epoll c.fd = some event → event = (c.events, p)
  new : c.index = .kNew ↔ s.channels c.fd = none
  has : s.hasChannel p = true ↔ c.index ≠ .kNew

theorem mirrorsOf {fds : Nat → Option Nat} {s : EPollPoller} {p : Nat} {c : Channel} (inv : Inv fds s)
    (there : s.objects p = some c) : Mirrors s p c := by
  have own := inv.each p c there
  cases here : c.index with
  | kNew =>
    rw [here] at own
    constructor <;> simp [here, own.1, own.2, hasChannel, there]
  | kAdded =>
    rw [here] at own
    constructor <;> simp [here, own.1, own.2, hasChannel, there]
  | kDeleted =>
    rw [here] at own
    constructor <;> simp [here, own.1, own.2, hasChannel, there]

theorem pollerMirrorsKernel {fds : Nat → Option Nat}
    (distinct : ∀ p q fd, fds p = some fd → fds q = some fd → p = q) {actions : List Action}
    (present : ∀ a ∈ actions, (fds a.channel).isSome) :
    ∃ s, run step (unused fds) actions = some s ∧ s.failures = [] ∧
      ∀ p c, s.objects p = some c → Mirrors s p c := by
  obtain ⟨s, ok, inv⟩ := runProgress (fun inv present => stepInv distinct inv present) (unusedInv fds)
    (alongOf (fun _ a member => present a member) _)
  exact ⟨s, ok, inv.clean, fun p c there => mirrorsOf inv there⟩

theorem pollerMirrorsKernelSample :
    ∃ s, run step (unused (fun p => if p < 3 then some (p + 5) else none))
        [⟨0, .enableReading⟩, ⟨1, .enableWriting⟩, ⟨0, .disableAll⟩, ⟨1, .remove⟩, ⟨2, .disableReading⟩,
          ⟨1, .enableReading⟩, ⟨0, .disableAll⟩] = some s ∧
      s.failures = [] ∧ ∀ p c, s.objects p = some c → Mirrors s p c :=
  pollerMirrorsKernel (by intro p q fd; grind) (by decide)

end TinyNetwork.PollerMirror
