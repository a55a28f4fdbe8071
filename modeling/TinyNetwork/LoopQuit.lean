import TinyNetwork.EventLoopThread

/-! What becomes of a quit() from another thread. loop() clears quit_ when it is
entered, and quit() writes the eventfd only in the loop's own thread. The request
holds when it comes behind the one and does not need the other. -/
namespace TinyNetwork.LoopQuit
open Runs EventLoop EventLoopThread

variable {α : Type}

def blocked (s : EventLoopThread α) : Bool :=
  s.thread = .looping &&
    match s.queue.loop.phase with
    | .polling => s.queue.loop.wakeupFd = 0
    | _ => false

def Noticed (s : EventLoopThread α) : Prop := s.queue.loop.quit = true ∧ blocked s = false

def InTime (s : EventLoopThread α) : Prop := s.thread = .looping ∧ blocked s = false

structure Running (s : EventLoopThread α) : Prop where
  flag : s.queue.loop.quit = false
  inside : s.thread = .looping → s.queue.loop.outside = false
  there : s.thread ≠ .left ∧ s.thread ≠ .finished
  published : s.loopPtr = true → s.thread = .published ∨ s.thread = .looping
  started : s.returned = true → s.loopPtr = true

structure Leaving (s : EventLoopThread α) : Prop where
  flag : s.queue.loop.quit = true
  entered : s.thread = .looping ∨ s.thread = .left ∨ s.thread = .finished
  awake : blocked s = false

theorem advanceMoves {l m : EventLoop α} {reported : List Active} (ok : l.advance reported = some m) :
    m.quit = l.quit ∧ (l.quit = false → m.outside = false) ∧ (l.quit = true → m.phase ≠ .polling) := by
  unfold advance at ok
  split at ok
  all_goals try (split at ok <;> try contradiction)
  all_goals first | contradiction | (rw [← Option.some.inj ok]; simp_all [outside, handleRead])

theorem queueMoves {q r : FunctorQueue.State α} {a : FunctorQueue.Action α}
    (other : ∀ inLoopThread, a ≠ .quit inLoopThread) (ok : FunctorQueue.step q a = some r) :
    (∃ reported, q.loop.advance reported = some r.loop) ∨
      (r.loop.quit = q.loop.quit ∧ r.loop.phase = q.loop.phase ∧ q.loop.wakeupFd ≤ r.loop.wakeupFd) := by
  cases a with
  | advance reported =>
    simp only [FunctorQueue.step] at ok
    split at ok <;> try contradiction
    simp only [bind, Option.bind_eq_some_iff] at ok
    obtain ⟨loop, moved, last⟩ := ok
    rw [← Option.some.inj last]
    exact .inl ⟨reported, moved⟩
  | push cb =>
    rw [← Option.some.inj ok]
    exact .inr ⟨rfl, rfl, Nat.le_refl _⟩
  | wake =>
    simp only [FunctorQueue.step] at ok
    split at ok <;> try contradiction
    rw [← Option.some.inj ok]
    exact .inr ⟨rfl, rfl, Nat.le_succ _⟩
  | pushInLoop cb =>
    simp only [FunctorQueue.step] at ok
    split at ok <;> try contradiction
    rw [← Option.some.inj ok]
    exact .inr ⟨rfl, rfl, Nat.le_refl _⟩
  | wakeInLoop =>
    simp only [FunctorQueue.step] at ok
    split at ok <;> try contradiction
    rw [← Option.some.inj ok]
    exact .inr ⟨rfl, rfl, Nat.le_succ _⟩
  | quit inLoopThread => exact absurd rfl (other inLoopThread)

theorem mayMoveOther {s : EventLoopThread α} {a : FunctorQueue.Action α} (may : s.mayMove a = true) :
    ∀ inLoopThread, a ≠ .quit inLoopThread := by
  rintro inLoopThread rfl
  simp [mayMove] at may

theorem emplacedLoop (functors : List α) (l : EventLoop α) :
    (functors.foldl emplaceBack l).quit = l.quit ∧ (functors.foldl emplaceBack l).phase = l.phase := by
  induction functors generalizing l with
  | nil => exact ⟨rfl, rfl⟩
  | cons f rest ih => exact ih (l.emplaceBack f)

inductive Stepped (s : EventLoopThread α) : Action α → EventLoopThread α → Prop where
  | construct (unborn : s.thread = .unborn) : Stepped s .construct { s with thread := .constructed }
  | callback (functors : List α) (early : s.thread = .constructed) :
      Stepped s (.callback functors) { s with
        thread := .initialised
        queue := { s.queue with
          loop := functors.foldl emplaceBack s.queue.loop
          pushed := s.queue.pushed ++ functors } }
  | publish (ready : s.thread = .initialised) : Stepped s .publish { s with thread := .published, loopPtr := true }
  | startLoop (ready : s.loopPtr = true) : Stepped s .startLoop { s with returned := true }
  | enter (ready : s.thread = .published) :
      Stepped s .enter { s with thread := .looping, queue := { s.queue with loop := s.queue.loop.enter } }
  | move {a : FunctorQueue.Action α} {queue : FunctorQueue.State α} (may : s.mayMove a = true)
      (moved : FunctorQueue.step s.queue a = some queue) : Stepped s (.move a) { s with queue }
  | leave (looping : s.thread = .looping) (ended : s.queue.loop.outside = true) :
      Stepped s .leave { s with thread := .left }
  | clear (left : s.thread = .left) : Stepped s .clear { s with thread := .finished, loopPtr := false }
  | quit (returned : s.returned = true) (first : s.quitCalled = false) :
      Stepped s .quit { s with
        quitCalled := true
        queue := { s.queue with loop := s.queue.loop.requestQuit false } }

theorem steppedOf {s t : EventLoopThread α} {a : Action α} (ok : step s a = some t) : Stepped s a t := by
  cases a with
  | construct =>
    obtain ⟨unborn, last⟩ := Option.ite_none_right_eq_some.mp ok
    exact Option.some.inj last ▸ .construct unborn
  | callback functors =>
    obtain ⟨early, last⟩ := Option.ite_none_right_eq_some.mp ok
    exact Option.some.inj last ▸ .callback functors early
  | publish =>
    obtain ⟨ready, last⟩ := Option.ite_none_right_eq_some.mp ok
    exact Option.some.inj last ▸ .publish ready
  | startLoop =>
    obtain ⟨ready, last⟩ := Option.ite_none_right_eq_some.mp ok
    rw [Bool.and_eq_true] at ready
    exact Option.some.inj last ▸ .startLoop ready.1
  | enter =>
    obtain ⟨ready, last⟩ := Option.ite_none_right_eq_some.mp ok
    exact Option.some.inj last ▸ .enter ready
  | move b =>
    obtain ⟨may, inner⟩ := Option.ite_none_right_eq_some.mp ok
    obtain ⟨queue, moved, last⟩ := Option.bind_eq_some_iff.mp inner
    exact Option.some.inj last ▸ .move may moved
  | leave =>
    obtain ⟨⟨looping, ended⟩, last⟩ := Option.ite_none_right_eq_some.mp ok
    exact Option.some.inj last ▸ .leave looping ended
  | clear =>
    obtain ⟨left, last⟩ := Option.ite_none_right_eq_some.mp ok
    exact Option.some.inj last ▸ .clear left
  | quit =>
    obtain ⟨may, last⟩ := Option.ite_none_right_eq_some.mp ok
    simp only [Bool.and_eq_true, Bool.not_eq_true'] at may
    exact Option.some.inj last ▸ .quit may.1.1 may.1.2

theorem stepRunning {s t : EventLoopThread α} {a : Action α} (inv : Running s) (other : a ≠ .quit)
    (ok : step s a = some t) : Running t := by
  obtain ⟨flag, inside, there, published, started⟩ := inv
  cases steppedOf ok with
  | construct unborn =>
    refine ⟨flag, nofun, ⟨nofun, nofun⟩, fun ptr => ?_, started⟩
    rcases published ptr with now | now <;> simp [unborn] at now
  | callback functors early =>
    refine ⟨(emplacedLoop functors _).1.trans flag, nofun, ⟨nofun, nofun⟩, fun ptr => ?_, started⟩
    rcases published ptr with now | now <;> simp [early] at now
  | publish => exact ⟨flag, nofun, ⟨nofun, nofun⟩, fun _ => .inl rfl, fun _ => rfl⟩
  | startLoop ready => exact ⟨flag, inside, there, published, fun _ => ready⟩
  | enter => exact ⟨rfl, fun _ => rfl, ⟨nofun, nofun⟩, fun _ => .inr rfl, started⟩
  | move may moved =>
    rcases queueMoves (mayMoveOther may) moved with ⟨reported, advanced⟩ | ⟨quit, phase, _⟩
    · obtain ⟨quit, stays, _⟩ := advanceMoves advanced
      exact ⟨quit.trans flag, fun _ => stays flag, there, published, started⟩
    · refine ⟨quit.trans flag, fun looping => ?_, there, published, started⟩
      have before := inside looping
      simpa only [outside, phase] using before
  | leave looping ended => simp [inside looping] at ended
  | clear left => exact absurd left there.1
  | quit => exact absurd rfl other

theorem blockedOnly {s t : EventLoopThread α} (thread : t.thread = s.thread)
    (phase : t.queue.loop.phase = s.queue.loop.phase) (more : s.queue.loop.wakeupFd ≤ t.queue.loop.wakeupFd)
    (awake : blocked s = false) : blocked t = false := by
  by_contra asleep
  simp only [blocked, thread, phase] at asleep awake
  split at asleep
  · simp_all
  · simp at asleep

theorem stepLeaving {s t : EventLoopThread α} {a : Action α} (inv : Leaving s) (ok : step s a = some t) :
    Leaving t := by
  obtain ⟨flag, entered, awake⟩ := inv
  cases steppedOf ok with
  | construct early | callback _ early | publish early | enter early => simp [early] at entered
  | startLoop => exact ⟨flag, entered, awake⟩
  | move may moved =>
    rcases queueMoves (mayMoveOther may) moved with ⟨reported, advanced⟩ | ⟨quit, phase, more⟩
    · obtain ⟨quit, _, away⟩ := advanceMoves advanced
      exact ⟨quit.trans flag, entered, by simp [blocked, away flag]⟩
    · exact ⟨quit.trans flag, entered, blockedOnly (s := s) rfl phase more awake⟩
  | leave => exact ⟨flag, .inr (.inl rfl), by simp [blocked]⟩
  | clear => exact ⟨flag, .inr (.inr rfl), by simp [blocked]⟩
  | quit => exact ⟨rfl, entered, blockedOnly (s := s) rfl rfl (Nat.le_refl _) awake⟩

theorem quitCases {s q : EventLoopThread α} (ok : step s .quit = some q) :
    (s.returned = true ∧ s.quitCalled = false) ∧ q.thread = s.thread ∧ q.quitCalled = true ∧
      q.queue.loop.quit = true ∧ blocked q = blocked s := by
  cases steppedOf ok with
  | quit returned first => exact ⟨⟨returned, first⟩, rfl, rfl, rfl, rfl⟩

theorem enterClears {s : EventLoopThread α} (early : s.thread = .published) :
    ∃ t, step s .enter = some t ∧ t.queue.loop.quit = false := by
  simp [step, early, enter]

theorem stepQuitCalled {s t : EventLoopThread α} {a : Action α} (other : a ≠ .quit)
    (ok : step s a = some t) : t.quitCalled = s.quitCalled := by
  cases steppedOf ok with
  | quit => exact absurd rfl other
  | construct | callback | publish | startLoop | enter | move | leave | clear => rfl

def Before (s : EventLoopThread α) : Prop := s.quitCalled = false → Running s

theorem startRunning : Running (start : EventLoopThread α) :=
  ⟨rfl, nofun, ⟨nofun, nofun⟩, nofun, nofun⟩

theorem stepBefore {s t : EventLoopThread α} {a : Action α} (inv : Before s) (ok : step s a = some t) :
    Before t := by
  intro notYet
  by_cases quits : a = .quit
  · rw [quits] at ok
    simp [(quitCases ok).2.2.1] at notYet
  · exact stepRunning (inv (stepQuitCalled quits ok ▸ notYet)) quits ok

theorem quitNoticedIff {actions : List (Action α)} {s q : EventLoopThread α}
    (ok : run step start actions = some s) (called : step s .quit = some q) :
    (∀ rest t, run step q rest = some t → Noticed t) ↔ InTime s := by
  obtain ⟨⟨returned, notYet⟩, thread, _, flag, same⟩ := quitCases called
  have running : Running s := runInvariant stepBefore (fun _ => startRunning) ok notYet
  constructor
  · intro always
    refine ⟨?_, same ▸ (always [] q rfl).2⟩
    rcases running.published (running.started returned) with early | looping
    · obtain ⟨t, entered, cleared⟩ := enterClears (thread.trans early)
      have noticed := (always [.enter] t (runCons.mpr ⟨t, entered, rfl⟩)).1
      simp [cleared] at noticed
    · exact looping
  · rintro ⟨looping, awake⟩ rest t ran
    have leaving := runInvariant stepLeaving ⟨flag, .inl (thread.trans looping), same.trans awake⟩ ran
    exact ⟨leaving.flag, leaving.awake⟩

def inFirstRound : EventLoopThread Nat := ⟨.looping, true, true, false, ⟨entered, 0, false, [], []⟩⟩

theorem quitNoticedSample :
    run step start [.construct, .callback [], .publish, .startLoop, .enter] = some inFirstRound ∧
      ∃ q, step inFirstRound .quit = some q ∧ ∀ rest t, run step q rest = some t → Noticed t := by
  have ok : run step start [.construct, .callback [], .publish, .startLoop, .enter] = some inFirstRound := rfl
  have called : step inFirstRound .quit =
      some ⟨.looping, true, true, true, ⟨entered.requestQuit false, 0, false, [], []⟩⟩ := rfl
  exact ⟨ok, _, called, (quitNoticedIff ok called).mpr ⟨rfl, rfl⟩⟩

/- startLoop has returned and loop() is not entered yet; and a loop that waits for
events, in its first round. -/
theorem quitLost :
    (∃ t, run step (start : EventLoopThread Nat)
        [.construct, .callback [], .publish, .startLoop, .quit, .enter] = some t ∧ ¬ Noticed t) ∧
    ∃ t, run step (start : EventLoopThread Nat)
        [.construct, .callback [], .publish, .startLoop, .enter, .move (.advance []), .quit] = some t ∧
      ¬ Noticed t := by
  refine ⟨⟨_, rfl, fun noticed => absurd noticed.1 (by decide)⟩, _, rfl, fun noticed => ?_⟩
  exact absurd noticed.2 (by decide)

end TinyNetwork.LoopQuit
