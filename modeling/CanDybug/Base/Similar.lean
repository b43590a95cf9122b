import CanDybug.Base.Program

/-!
# Programs do not look at the trace

The trace only records what happens. From configurations that agree in state and script, a
program made of the operations of this library returns the same and ends in configurations that
agree again, however the traces before it differ; and the traces stay related as they were.
-/

namespace CanDybug.Base

variable {σ ο ε α β : Type}

/-- A relation of traces that stays as both grow, and holds where both start again. -/
structure Growing (R : Trace σ ο → Trace σ ο → Prop) : Prop where
  nil : R [] []
  concat : ∀ t t' e, R t t' → R (t ++ [e]) (t' ++ [e])

/-- The same entries apart from those left out. -/
theorem growing_filter (p : ο × σ → Bool) :
    Growing fun t t' : Trace σ ο ↦ t.filter p = t'.filter p where
  nil := rfl
  concat t t' e h := by rw [List.filter_append, List.filter_append, h]

/-- Configurations that agree, with related traces. -/
structure Agree (R : Trace σ ο → Trace σ ο → Prop) (c c' : Conf σ ο ε) : Prop where
  state : c.state = c'.state
  script : c.script = c'.script
  trace : R c.trace c'.trace

/-- From configurations that agree, the program returns the same and ends in ones that agree. -/
def Blind (x : Prog σ ο ε α) : Prop :=
  ∀ R : Trace σ ο → Trace σ ο → Prop, Growing R → ∀ c c', Agree R c c' →
    (x c).1 = (x c').1 ∧ Agree R (x c).2 (x c').2

variable {M : Machine σ ο ε}

theorem Agree.exec {R : Trace σ ο → Trace σ ο → Prop} (hR : Growing R) {c c' : Conf σ ο ε}
    (h : Agree R c c') (o : ο) : Agree R (c.exec M o) (c'.exec M o) where
  state := congrArg (M.exec o) h.state
  script := h.script
  trace := by
    rw [Conf.exec, Conf.exec, h.state]
    exact hR.concat _ _ _ h.trace

theorem blind_pure (a : α) : Blind (pure a : Prog σ ο ε α) := fun _ _ _ _ h ↦ ⟨rfl, h⟩

theorem blind_bind {x : Prog σ ο ε β} {f : β → Prog σ ο ε α} (hx : Blind x)
    (hf : ∀ b, Blind (f b)) : Blind (x >>= f) := by
  intro R hR c c' h
  obtain ⟨hv, hc⟩ := hx R hR c c' h
  change (f (x c).1 (x c).2).1 = (f (x c').1 (x c').2).1 ∧
    Agree R (f (x c).1 (x c).2).2 (f (x c').1 (x c').2).2
  rw [hv]
  exact hf _ R hR _ _ hc

theorem blind_ite {p : Prop} {_ : Decidable p} {x y : Prog σ ο ε α} (hx : Blind x)
    (hy : Blind y) : Blind (if p then x else y) := by
  split
  · exact hx
  · exact hy

theorem blind_call (o : ο) (f : σ → α) : Blind (call M o f) :=
  fun _ hR _ _ h ↦ ⟨congrArg f h.state, h.exec hR o⟩

theorem blind_perform (o : ο) : Blind (perform M o) := blind_call o _

theorem blind_observe (f : σ → α) : Blind (observe f : Prog σ ο ε α) :=
  fun _ _ _ _ h ↦ ⟨congrArg f h.state, h⟩

theorem blind_scheduled : Blind (scheduled : Prog σ ο ε Nat) :=
  fun _ _ _ _ h ↦ ⟨congrArg List.length h.script, h⟩

theorem blind_restart : Blind (restart : Prog σ ο ε Unit) :=
  fun _ hR _ _ h ↦ ⟨rfl, h.state, h.script, hR.nil⟩

theorem blind_interfere : Blind (interfere M) := by
  intro R hR c c' h
  have events (es : List ε) (c c' : Conf σ ο ε) (h : Agree R c c') :
      Agree R (es.foldl (fun c e ↦ c.exec M (M.env e)) c)
        (es.foldl (fun c e ↦ c.exec M (M.env e)) c') := by
    induction es generalizing c c' with
    | nil => exact h
    | cons e es ih => exact ih _ _ (h.exec hR _)
  refine ⟨rfl, ?_⟩
  unfold interfere
  rw [← h.script]
  cases c.script with
  | nil => exact h
  | cons es rest => exact events es _ _ ⟨h.state, rfl, h.trace⟩

theorem blind_access (o : ο) (f : σ → α) : Blind (access M o f) :=
  blind_bind blind_interfere fun _ ↦ blind_call o f

end CanDybug.Base
