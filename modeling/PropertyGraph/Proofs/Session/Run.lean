import Mathlib.Tactic
import PropertyGraph.Session.Elements

/-!
# Running actions

What an action answers and what it leaves behind, read off the steps it is made of.
-/

namespace PropertyGraph.Action

variable {α β : Type} {a b : Action α} {s : Session}

/-! An action is applied to a session by running its steps in turn, up to the first refusal. -/

theorem bind_apply (a : Action α) (f : α → Action β) (s : Session) :
    (a >>= f) s = match a s with
      | (.ok x, s) => f x s
      | (.error fault, s) => (.error fault, s) := by
  change ExceptT.bindCont f (a s).1 (a s).2 = _
  rcases a s with ⟨answer, s⟩
  cases answer <;> rfl

@[simp]
theorem pure_apply (x : α) (s : Session) : (pure x : Action α) s = (.ok x, s) := rfl

@[simp]
theorem throw_apply (fault : Fault) (s : Session) :
    (throw fault : Action α) s = (.error fault, s) := rfl

@[simp]
theorem get_apply (s : Session) : (get : Action Session) s = (.ok s, s) := rfl

@[simp]
theorem ask_apply (question : Session → Except Fault α) (s : Session) :
    ask question s = (question s, s) := rfl

@[simp]
theorem change_apply (f : Session → Session) (s : Session) : change f s = (.ok (), f s) := rfl

theorem onStore_apply (step : Store → Except Fault α × Store) (s : Session) :
    onStore step s = ((step s.store).1, { s with store := (step s.store).2 }) := rfl

theorem bind_snd {P : Session → Prop} {f : α → Action β} (hfirst : P (a s).2)
    (hrest : ∀ x s', a s = (.ok x, s') → P (f x s').2) : P ((a >>= f) s).2 := by
  rw [bind_apply]
  cases h : a s with
  | mk answer s' =>
    cases answer with
    | error fault =>
      rw [h] at hfirst
      exact hfirst
    | ok x => exact hrest x s' h

theorem discard_eq (a : Action α) : discard a = a >>= fun _ => pure () := rfl

@[simp]
theorem discard_snd (a : Action α) (s : Session) : (discard a s).2 = (a s).2 := by
  rw [discard_eq, bind_apply]
  rcases a s with ⟨answer, s⟩
  cases answer <;> rfl

/-! ### Where an action leads

A property of the session that an action leaves behind is followed through the steps of the action,
rather than stated of the session that they compute, since that is a term as large as all of them. -/

/-- The action leaves a session behind that has a property. -/
def Leads (a : Action α) (s : Session) (P : Session → Prop) : Prop := P (a s).2

namespace Leads

variable {P : Session → Prop}

theorem ask_bind {question : Session → Except Fault α} {f : α → Action β} (hrefused : P s)
    (hrest : ∀ x, question s = .ok x → (f x).Leads s P) : (ask question >>= f).Leads s P := by
  refine bind_snd hrefused fun x s' h => ?_
  rw [ask_apply, Prod.mk.injEq] at h
  obtain ⟨hx, rfl⟩ := h
  exact hrest x hx

theorem get_bind {f : Session → Action β} (hrest : (f s).Leads s P) : Leads (get >>= f) s P := by
  rw [Leads, bind_apply]
  exact hrest

theorem change_bind {f : Session → Session} {rest : Unit → Action β}
    (hrest : (rest ()).Leads (f s) P) : (change f >>= rest).Leads s P := by
  rw [Leads, bind_apply]
  exact hrest

theorem map_answer (h : a.Leads s P) (f : α → β) : (a >>= fun x => pure (f x)).Leads s P :=
  bind_snd h fun x s' ha => by
    rw [Leads, ha] at h
    exact h

end Leads

/-! ### Applying a call to several elements -/

theorem countEach_cons_snd (call : α → Action Bool) (x : α) (xs : List α) (s : Session) :
    (Session.countEach call (x :: xs) s).2 =
      match (call x s).1 with
      | .error _ => (call x s).2
      | .ok _ => (Session.countEach call xs (call x s).2).2 := by
  rw [Session.countEach, bind_apply]
  rcases call x s with ⟨answer, s'⟩
  cases answer with
  | error fault => rfl
  | ok done =>
    simp only [bind_apply]
    rcases Session.countEach call xs s' with ⟨answer, s''⟩
    cases answer <;> rfl

theorem countEach_snd {P : Session → Prop} {call : α → Action Bool}
    (hcall : ∀ x s, P s → P (call x s).2) (xs : List α) (h : P s) :
    P (Session.countEach call xs s).2 := by
  induction xs generalizing s with
  | nil => exact h
  | cons x xs ih =>
    rw [countEach_cons_snd]
    cases (call x s).1 with
    | error fault => exact hcall x s h
    | ok done => exact ih (hcall x s h)

end PropertyGraph.Action
