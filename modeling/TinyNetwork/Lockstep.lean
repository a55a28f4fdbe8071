import TinyNetwork.Runs

/-! Two computations in step. Both fail, or both come to an end and the ends are
related; a chain of such computations is one, and so are two runs whose actions are
related one by one. -/
namespace TinyNetwork.Lockstep
open Runs

variable {α β γ δ : Type}

theorem relBindOf {R : α → β → Prop} {Q : γ → δ → Prop} {x : Option α} {y : Option β} {f : α → Option γ}
    {g : β → Option δ} (first : Option.Rel R x y) (next : ∀ a b, x = some a → R a b → Option.Rel Q (f a) (g b)) :
    Option.Rel Q (x >>= f) (y >>= g) := by
  cases first with
  | none => exact .none
  | some related => exact next _ _ rfl related

theorem relBind {R : α → β → Prop} {Q : γ → δ → Prop} {x : Option α} {y : Option β} {f : α → Option γ}
    {g : β → Option δ} (first : Option.Rel R x y) (next : ∀ a b, R a b → Option.Rel Q (f a) (g b)) :
    Option.Rel Q (x >>= f) (y >>= g) :=
  relBindOf first fun a b _ => next a b

theorem relBindPair {ι : Type} {R : α → β → Prop} {Q : γ → δ → Prop} {x : Option (ι × α)} {y : Option (ι × β)}
    {f : ι × α → Option γ} {g : ι × β → Option δ}
    (first : Option.Rel (fun u v => v.1 = u.1 ∧ R u.2 v.2) x y)
    (next : ∀ i a b, R a b → Option.Rel Q (f (i, a)) (g (i, b))) : Option.Rel Q (x >>= f) (y >>= g) := by
  refine relBind first ?_
  rintro ⟨i, a⟩ ⟨_, b⟩ ⟨rfl, related⟩
  exact next _ a b related

theorem relMonoOf {R Q : α → β → Prop} {x : Option α} {y : Option β} (first : Option.Rel R x y)
    (weaker : ∀ a b, x = some a → R a b → Q a b) : Option.Rel Q x y := by
  cases first with
  | none => exact .none
  | some related => exact .some (weaker _ _ rfl related)

theorem relMono {R Q : α → β → Prop} {x : Option α} {y : Option β} (first : Option.Rel R x y)
    (weaker : ∀ a b, R a b → Q a b) : Option.Rel Q x y :=
  relMonoOf first fun a b _ => weaker a b

theorem relOf {R : α → β → Prop} {x : Option α} {y : Option β} (both : Option.Rel R x y) {a : α} (ok : x = some a) :
    ∃ b, y = some b ∧ R a b := by
  cases both with
  | none => contradiction
  | some related =>
    cases Option.some.inj ok
    exact ⟨_, rfl, related⟩

theorem relIf {R : α → β → Prop} {p q : Prop} [Decidable p] [Decidable q] (same : p ↔ q) {a c : Option α}
    {b d : Option β} (yes : p → Option.Rel R a b) (no : ¬ p → Option.Rel R c d) :
    Option.Rel R (if p then a else c) (if q then b else d) := by
  by_cases holds : p
  · rw [if_pos holds, if_pos (same.mp holds)]
    exact yes holds
  · rw [if_neg holds, if_neg (mt same.mpr holds)]
    exact no holds

theorem runLockstep {σ τ : Type} {step : σ → α → Option σ} {step' : τ → β → Option τ} {R : σ → τ → Prop}
    {A : α → β → Prop} (kept : ∀ {s t a b}, R s t → A a b → Option.Rel R (step s a) (step' t b))
    {s : σ} {t : τ} {actions : List α} {others : List β} (related : R s t) (same : List.Forall₂ A actions others) :
    Option.Rel R (run step s actions) (run step' t others) := by
  induction same generalizing s t with
  | nil => exact .some related
  | cons first _ ih => exact relBind (kept related first) fun u v next => ih next

end TinyNetwork.Lockstep
