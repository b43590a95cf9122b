import Mathlib.Data.List.Basic

/-!
# Refinement of data types

A data type answers calls: a call gives a result and a new state. A guard says which
calls are allowed where. One data type refines another along a relation of their states
if allowed calls give the same results and lead to related states; then so do whole runs.
-/

namespace CanDybug.Base

variable {κ ρ σ τ : Type*}

/-- Any sequence of calls: the results, in order, and the last state. -/
def serve (answer : κ → σ → ρ × σ) : List κ → σ → List ρ × σ
  | [], s => ([], s)
  | k :: ks, s =>
    let r := answer k s
    let rest := serve answer ks r.2
    (r.1 :: rest.1, rest.2)

/-- Each call of a sequence is allowed where it is made. -/
def Allowed (answer : κ → σ → ρ × σ) (answer' : κ → τ → ρ × τ) (guard : κ → σ → τ → Prop) :
    List κ → σ → τ → Prop
  | [], _, _ => True
  | k :: ks, s, a =>
    guard k s a ∧ Allowed answer answer' guard ks (answer k s).2 (answer' k a).2

instance decidableAllowed (answer : κ → σ → ρ × σ) (answer' : κ → τ → ρ × τ)
    (guard : κ → σ → τ → Prop) [∀ k s a, Decidable (guard k s a)] :
    (ks : List κ) → (s : σ) → (a : τ) → Decidable (Allowed answer answer' guard ks s a)
  | [], _, _ => .isTrue trivial
  | k :: ks, s, a =>
    have := decidableAllowed answer answer' guard ks (answer k s).2 (answer' k a).2
    inferInstanceAs (Decidable (_ ∧ _))

/-- Allowed calls from related states give the same results and lead to related states. -/
def Refines (answer : κ → σ → ρ × σ) (answer' : κ → τ → ρ × τ) (guard : κ → σ → τ → Prop)
    (R : σ → τ → Prop) : Prop :=
  ∀ k s a, R s a → guard k s a →
    (answer k s).1 = (answer' k a).1 ∧ R (answer k s).2 (answer' k a).2

/-- What refines by calls refines by runs. -/
theorem Refines.serve {answer : κ → σ → ρ × σ} {answer' : κ → τ → ρ × τ}
    {guard : κ → σ → τ → Prop} {R : σ → τ → Prop} (h : Refines answer answer' guard R)
    {ks : List κ} {s : σ} {a : τ} (hr : R s a) (hg : Allowed answer answer' guard ks s a) :
    (Base.serve answer ks s).1 = (Base.serve answer' ks a).1 ∧
      R (Base.serve answer ks s).2 (Base.serve answer' ks a).2 := by
  induction ks generalizing s a with
  | nil => exact ⟨rfl, hr⟩
  | cons k ks ih =>
    obtain ⟨hres, hnext⟩ := h k s a hr hg.1
    obtain ⟨hs, hend⟩ := ih hnext hg.2
    exact ⟨congrArg₂ _ hres hs, hend⟩

end CanDybug.Base
