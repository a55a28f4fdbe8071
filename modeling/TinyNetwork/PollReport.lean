import TinyNetwork.Basic
import TinyNetwork.EPollPoller

/-! What poll makes of epoll_wait. Its result is an int, kept as a size: a failure is a
very large number of events, which the loop that fills the active channels gets back as
a negative int. So nothing is filled, and the branch for failures is never taken. -/
namespace TinyNetwork.PollReport
open Words

structure EpollEvent where
  events : EpollMask := {}
  ptr : Nat := 0
  deriving DecidableEq, Repr

inductive EpollWait where
  | reported (events : List EpollEvent)
  | failed (errno : Nat)
  deriving DecidableEq, Repr

inductive Branch where
  | events
  | timeout
  | failure
  deriving DecidableEq, Repr

inductive Logged where
  | timeout
  | failed
  deriving DecidableEq, Repr

/- The poller with events_, and *activeChannels; `logged` are the statements of poll. -/
structure Polling where
  poller : EPollPoller
  events : List EpollEvent
  activeChannels : List Nat
  logged : List Logged

def EINTR : Nat := 4

def EpollWait.result : EpollWait → Int
  | .reported events => events.length
  | .failed _ => -1

def EpollWait.array (events : List EpollEvent) : EpollWait → List EpollEvent
  | .reported got => got ++ events.drop got.length
  | .failed _ => events

def EpollWait.errno : EpollWait → Nat
  | .reported _ => 0
  | .failed errno => errno

def fillFrom : Nat → Nat → Polling → Option Polling
  | 0, _, s => some s
  | turns + 1, i, s => do
      let event ← s.events[i]?
      let c ← s.poller.objects event.ptr
      let objects := Function.update s.poller.objects event.ptr (some { c with revents := event.events })
      fillFrom turns (i + 1)
        { s with
          poller := { s.poller with objects }
          activeChannels := s.activeChannels ++ [event.ptr] }

def fillActiveChannels (s : Polling) (numEvents : Int) : Option Polling := fillFrom numEvents.toNat 0 s

def poll (s : Polling) (wait : EpollWait) : Option (Branch × Polling) :=
  let numEvents := widen wait.result
  let s := { s with events := wait.array s.events }
  if 0 < numEvents then do
    let s ← fillActiveChannels s (narrow numEvents)
    if numEvents = s.events.length then
      some (.events, { s with events := s.events ++ List.replicate s.events.length {} })
    else some (.events, s)
  else if numEvents = 0 then some (.timeout, { s with logged := s.logged ++ [.timeout] })
  else if wait.errno ≠ EINTR then some (.failure, { s with logged := s.logged ++ [.failed] })
  else some (.failure, s)

/- The kernel reports no more than it was offered, as an int, and for channels that exist. -/
def Possible (s : Polling) : EpollWait → Prop
  | .reported reported => reported.length ≤ s.events.length ∧ reported.length < intLimit ∧
      ∀ e ∈ reported, (s.poller.objects e.ptr).isSome
  | .failed _ => True

def reventsOf (p : Nat) (old : EpollMask) (reported : List EpollEvent) : EpollMask :=
  reported.foldl (fun mask e => if e.ptr = p then e.events else mask) old

def filled (objects : Nat → Option Channel) (reported : List EpollEvent) (p : Nat) : Option Channel :=
  (objects p).map fun c => { c with revents := reventsOf p c.revents reported }

def Reports (s : Polling) (wait : EpollWait) (branch : Branch) (t : Polling) : Prop :=
  match wait with
  | .reported reported =>
      t.activeChannels = s.activeChannels ++ reported.map EpollEvent.ptr ∧
        t.poller = { s.poller with objects := filled s.poller.objects reported } ∧
        t.events.length = if reported.length = s.events.length then s.events.length * 2 else s.events.length
  | .failed errno =>
      branch = .failure ∧ t.activeChannels = s.activeChannels ∧ t.poller = s.poller ∧ t.events = s.events ∧
        t.logged = s.logged ++ if errno = EINTR then [] else [.failed]

section
variable {s : Polling}

theorem reventsOnce {reported : List EpollEvent} {e : EpollEvent} (old : EpollMask) (member : e ∈ reported)
    (once : (reported.map EpollEvent.ptr).Nodup) : reventsOf e.ptr old reported = e.events := by
  have others (old : EpollMask) (p : Nat) (rest : List EpollEvent) (absent : p ∉ rest.map EpollEvent.ptr) :
      reventsOf p old rest = old := by
    induction rest generalizing old with
    | nil => rfl
    | cons f rest ih =>
      rw [List.map_cons, List.mem_cons, not_or] at absent
      rw [reventsOf, List.foldl_cons, if_neg fun same => absent.1 same.symm]
      exact ih old absent.2
  induction reported generalizing old with
  | nil => simp at member
  | cons f rest ih =>
    obtain ⟨fresh, distinct⟩ := List.nodup_cons.mp once
    rw [reventsOf, List.foldl_cons]
    rcases List.mem_cons.mp member with rfl | later
    · rw [if_pos rfl]
      exact others _ _ _ fresh
    · exact ih _ later distinct

theorem filledNone (objects : Nat → Option Channel) : filled objects [] = objects := by
  funext p
  simp [filled, reventsOf]

theorem filledCons {objects : Nat → Option Channel} {e : EpollEvent} {c : Channel} (found : objects e.ptr = some c)
    (es : List EpollEvent) :
    filled (Function.update objects e.ptr (some { c with revents := e.events })) es = filled objects (e :: es) := by
  funext p
  by_cases here : p = e.ptr
  · subst here
    simp [filled, reventsOf, found]
  · have other : e.ptr ≠ p := fun same => here same.symm
    simp only [filled, reventsOf, List.foldl_cons, Function.update_of_ne here, if_neg other]

theorem fillSpec (s : Polling) (front : List EpollEvent) {es back : List EpollEvent}
    (events : s.events = front ++ es ++ back) (live : ∀ e ∈ es, (s.poller.objects e.ptr).isSome) :
    fillFrom es.length front.length s =
      some { s with
        poller := { s.poller with objects := filled s.poller.objects es }
        activeChannels := s.activeChannels ++ es.map EpollEvent.ptr } := by
  induction es generalizing front s with
  | nil => simp [fillFrom, filledNone]
  | cons e es ih =>
    obtain ⟨here, others⟩ := List.forall_mem_cons.mp live
    obtain ⟨c, found⟩ := Option.isSome_iff_exists.mp here
    have entry : s.events[front.length]? = some e := by
      rw [events, List.append_assoc]
      simp
    let objects := Function.update s.poller.objects e.ptr (some { c with revents := e.events })
    let next : Polling :=
      { s with poller := { s.poller with objects }, activeChannels := s.activeChannels ++ [e.ptr] }
    have live' : ∀ f ∈ es, (next.poller.objects f.ptr).isSome := by
      intro f member
      by_cases same : f.ptr = e.ptr
      · simp [next, objects, same]
      · simpa [next, objects, Function.update_of_ne same] using others f member
    have behind : next.events = (front ++ [e]) ++ es ++ back := by simp [next, events]
    have rest := ih next (front ++ [e]) behind live'
    rw [List.length_append, List.length_singleton] at rest
    rw [List.length_cons, fillFrom]
    simp only [entry, found, bind, Option.bind]
    rw [rest]
    simp only [next, objects, filledCons found, List.map_cons, List.append_assoc, List.singleton_append]

theorem pollReported {reported : List EpollEvent} (possible : Possible s (.reported reported)) :
    ∃ branch t, poll s (.reported reported) = some (branch, t) ∧ Reports s (.reported reported) branch t := by
  obtain ⟨offered, int, live⟩ := possible
  have wide : widen (EpollWait.reported reported).result = reported.length :=
    widenNat (by unfold intLimit at int; unfold sizeLimit; omega)
  have length : (reported ++ s.events.drop reported.length).length = s.events.length := by
    rw [List.length_append, List.length_drop]
    omega
  have all := fillSpec { s with events := reported ++ s.events.drop reported.length } [] rfl live
  simp only [poll, EpollWait.array, wide]
  split
  · have turns : (narrow reported.length).toNat = reported.length := by
      rw [narrowExact int]
      rfl
    simp only [fillActiveChannels, turns, bind, Option.bind]
    rw [show (0 : Nat) = ([] : List EpollEvent).length from rfl, all]
    simp only [length]
    split
    · rename_i full
      refine ⟨_, _, rfl, rfl, rfl, ?_⟩
      rw [if_pos full, List.length_append, List.length_replicate, length, Nat.mul_two]
    · rename_i spare
      exact ⟨_, _, rfl, rfl, rfl, by rw [if_neg spare]; exact length⟩
  · rename_i none
    have empty : reported = [] := List.eq_nil_of_length_eq_zero (Nat.eq_zero_of_not_pos none)
    subst empty
    have same : filled s.poller.objects [] = s.poller.objects := filledNone _
    refine ⟨_, _, if_pos rfl, by simp, by rw [same], ?_⟩
    split <;> simp_all

theorem pollFailed (s : Polling) (errno : Nat) :
    ∃ t, poll s (.failed errno) = some (.events, t) ∧ (s.events.length ≠ 2 ^ 64 - 1 → t = s) := by
  have wide : widen (EpollWait.failed errno).result = 2 ^ 64 - 1 := by
    rw [EpollWait.result]
    decide
  have turns : (narrow (2 ^ 64 - 1)).toNat = 0 := by decide
  simp only [poll, EpollWait.array, wide, fillActiveChannels, turns, fillFrom, bind, Option.bind]
  rw [if_pos (by decide)]
  split
  · rename_i full
    exact ⟨_, rfl, fun short => absurd full.symm short⟩
  · exact ⟨s, rfl, fun _ => rfl⟩

theorem reportsIff {wait : EpollWait} (possible : Possible s wait) :
    (∃ branch t, poll s wait = some (branch, t) ∧ Reports s wait branch t) ↔
      ∃ reported, wait = .reported reported := by
  cases wait with
  | reported reported => exact iff_of_true (pollReported possible) ⟨reported, rfl⟩
  | failed errno =>
    refine iff_of_false ?_ nofun
    rintro ⟨branch, t, ok, failure, _⟩
    obtain ⟨u, taken, _⟩ := pollFailed s errno
    rw [ok, failure] at taken
    cases taken

end

def idle : Polling :=
  ⟨⟨fun _ => none, fun _ => none, fun _ => none, []⟩, List.replicate 16 {}, [], []⟩

def watching (size : Nat) : Polling :=
  let reader : Channel := { Channel.make 5 with events := Channel.kReadEvent, index := .kAdded }
  let writer : Channel := { Channel.make 6 with events := Channel.kWriteEvent, index := .kAdded }
  ⟨⟨fun p => if p = 16 then some reader else if p = 24 then some writer else none,
    fun fd => if fd = 5 then some 16 else if fd = 6 then some 24 else none,
    fun fd => if fd = 5 then some (Channel.kReadEvent, 16) else if fd = 6 then some (Channel.kWriteEvent, 24) else none,
    []⟩, List.replicate size {}, [], []⟩

def bothReady : List EpollEvent := [⟨{ epollout := true }, 24⟩, ⟨{ epollin := true, epollhup := true }, 16⟩]

theorem reportsIffSample :
    (∃ branch t, poll (watching 2) (.reported bothReady) = some (branch, t) ∧
      Reports (watching 2) (.reported bothReady) branch t ∧ t.activeChannels = [24, 16] ∧ t.events.length = 4 ∧
      (t.poller.objects 16).map Channel.revents = some { epollin := true, epollhup := true }) ∧
    (∃ branch t, poll (watching 16) (.reported bothReady) = some (branch, t) ∧
      Reports (watching 16) (.reported bothReady) branch t ∧ t.activeChannels = [24, 16] ∧ t.events.length = 16) := by
  have full : Possible (watching 2) (.reported bothReady) := ⟨by decide, by decide, by decide⟩
  have spare : Possible (watching 16) (.reported bothReady) := ⟨by decide, by decide, by decide⟩
  obtain ⟨branch, t, ok, channels, poller, events⟩ := (reportsIff full).mpr ⟨bothReady, rfl⟩
  obtain ⟨branch', u, ok', channels', poller', events'⟩ := (reportsIff spare).mpr ⟨bothReady, rfl⟩
  refine ⟨⟨branch, t, ok, ⟨channels, poller, events⟩, channels, events, ?_⟩,
    branch', u, ok', ⟨channels', poller', events'⟩, channels', events'⟩
  rw [poller]
  rfl

theorem failureUnseen : Possible idle (.failed 9) ∧ poll idle (.failed 9) = some (.events, idle) ∧
    ¬ ∃ branch t, poll idle (.failed 9) = some (branch, t) ∧ Reports idle (.failed 9) branch t := by
  obtain ⟨t, ok, same⟩ := pollFailed idle 9
  have taken : poll idle (.failed 9) = some (.events, idle) := by
    rw [ok, same (by decide)]
  refine ⟨trivial, taken, ?_⟩
  rintro ⟨branch, u, ran, failure, _⟩
  rw [ran, failure] at taken
  cases taken

end TinyNetwork.PollReport
