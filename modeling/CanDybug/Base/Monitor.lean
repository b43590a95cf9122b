import CanDybug.Base.Program
import Mathlib.Data.List.Induction

/-!
# Monitors of a trace

A monitor folds the entries of a trace into a value. A condition on the steps of a run
may then depend on what went before: it is stated about each entry and the value the
monitor has reached there. It grows with the trace one entry at a time. So does a condition
on what has happened and has not been undone since.
-/

namespace CanDybug.Base

variable {σ ο β γ : Type}

/-- Where a monitor starts, and how an entry moves it on. -/
structure Monitor (σ ο β : Type) where
  start : β
  next : β → ο × σ → β

namespace Monitor

/-- The value a monitor has after a trace. -/
def after (m : Monitor σ ο β) (t : Trace σ ο) : β := t.foldl m.next m.start

@[simp] theorem after_nil (m : Monitor σ ο β) : m.after [] = m.start := rfl

@[simp] theorem after_concat (m : Monitor σ ο β) (t : Trace σ ο) (e : ο × σ) :
    m.after (t ++ [e]) = m.next (m.after t) e := by
  simp [after]

/-- Two monitors side by side. -/
def both (m : Monitor σ ο β) (m' : Monitor σ ο γ) : Monitor σ ο (β × γ) :=
  ⟨(m.start, m'.start), fun b e ↦ (m.next b.1 e, m'.next b.2 e)⟩

/-- Each of them moves on its own. -/
theorem after_both (m : Monitor σ ο β) (m' : Monitor σ ο γ) (t : Trace σ ο) :
    (m.both m').after t = (m.after t, m'.after t) := by
  induction t using List.reverseRecOn with
  | nil => rfl
  | append_singleton t e ih => rw [after_concat, after_concat, after_concat, ih, both]

/-- A property of each entry of a trace and the value reached before it. -/
def AlongFrom (m : Monitor σ ο β) (p : β → ο × σ → Prop) : β → Trace σ ο → Prop
  | _, [] => True
  | b, e :: t => p b e ∧ m.AlongFrom p (m.next b e) t

/-- A property along the whole trace. -/
def Along (m : Monitor σ ο β) (p : β → ο × σ → Prop) (t : Trace σ ο) : Prop :=
  m.AlongFrom p m.start t

instance decidableAlongFrom (m : Monitor σ ο β) (p : β → ο × σ → Prop)
    [∀ b e, Decidable (p b e)] (b : β) : (t : Trace σ ο) → Decidable (m.AlongFrom p b t)
  | [] => .isTrue trivial
  | e :: t =>
    have := m.decidableAlongFrom p (m.next b e) t
    inferInstanceAs (Decidable (_ ∧ _))

instance decidableAlong (m : Monitor σ ο β) (p : β → ο × σ → Prop) [∀ b e, Decidable (p b e)]
    (t : Trace σ ο) : Decidable (m.Along p t) :=
  m.decidableAlongFrom p m.start t

variable {m : Monitor σ ο β} {p : β → ο × σ → Prop}

@[simp] theorem along_nil : m.Along p [] := trivial

private theorem alongFrom_concat (b : β) (t : Trace σ ο) (e : ο × σ) :
    m.AlongFrom p b (t ++ [e]) ↔ m.AlongFrom p b t ∧ p (t.foldl m.next b) e := by
  induction t generalizing b with
  | nil => simp [AlongFrom]
  | cons a t ih => rw [List.cons_append, AlongFrom, AlongFrom, ih, List.foldl_cons, and_assoc]

/-- The last entry is judged by the value reached before it. -/
theorem along_concat (t : Trace σ ο) (e : ο × σ) :
    m.Along p (t ++ [e]) ↔ m.Along p t ∧ p (m.after t) e :=
  alongFrom_concat m.start t e

/-- What holds along a trace holds along its beginnings. -/
theorem along_prefix {t t' : Trace σ ο} (h : t <+: t') (ht : m.Along p t') : m.Along p t := by
  obtain ⟨rest, rfl⟩ := h
  induction rest using List.reverseRecOn with
  | nil => rwa [List.append_nil] at ht
  | append_singleton rest e ih =>
    rw [← List.append_assoc, along_concat] at ht
    exact ih ht.1

/-! ### Since -/

/-- Whether something has begun and has not ended since; both may look at the monitor. -/
def since (m : Monitor σ ο β) (begins ends : β → ο × σ → Bool) (t : Trace σ ο) : Bool :=
  (t.foldl (fun b e ↦ (m.next b.1 e, begins b.1 e || b.2 && !ends b.1 e)) (m.start, false)).2

variable {begins ends : β → ο × σ → Bool}

@[simp] theorem since_nil : m.since begins ends [] = false := rfl

theorem since_concat (t : Trace σ ο) (e : ο × σ) :
    m.since begins ends (t ++ [e]) =
      (begins (m.after t) e || m.since begins ends t && !ends (m.after t) e) := by
  have hfst (t : Trace σ ο) : (t.foldl (fun b e ↦
      (m.next b.1 e, begins b.1 e || b.2 && !ends b.1 e)) (m.start, false)).1 = m.after t := by
    induction t using List.reverseRecOn with
    | nil => rfl
    | append_singleton t e ih =>
      rw [List.foldl_append, List.foldl_cons, ih, after_concat]
      rfl
  rw [since, since, List.foldl_append, List.foldl_cons, hfst]
  rfl

/-- What it says may be read off the state: an entry that changes both alike keeps that so. -/
theorem since_eq_concat {v v' : Bool} {t : Trace σ ο} {e : ο × σ}
    (h : v = !m.since begins ends t)
    (hv : v' = !(begins (m.after t) e || !v && !ends (m.after t) e)) :
    v' = !m.since begins ends (t ++ [e]) := by
  rw [since_concat, hv, h, Bool.not_not]

/-- What never begins is never there. -/
theorem since_of_along {t : Trace σ ο} (h : m.Along (fun b e ↦ begins b e = false) t) :
    m.since begins ends t = false := by
  induction t using List.reverseRecOn with
  | nil => rfl
  | append_singleton t e ih =>
    obtain ⟨ht, he⟩ := (along_concat t e).mp h
    rw [since_concat, ih ht, he]
    rfl

end Monitor

end CanDybug.Base
