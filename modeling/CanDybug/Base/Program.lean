import Mathlib.Data.List.Basic

/-!
# Traced programs with interference

A handler is a sequence of atomic operations on a shared state. Before each access
its environment may act any number of times; what it does is the configuration's
`script`, so a theorem about every script is one about every interleaving. The trace
keeps each operation, the environment's included, with the state it was executed in.

Assertions speak of the state and the trace and never of the script. The rules below
are those of a Hoare logic in which an access also needs its precondition to be
stable under the environment.
-/

namespace CanDybug.Base

variable {σ ο ε α β : Type}

/-- Atomic operations on a state; the environment's are among them. -/
structure Machine (σ ο ε : Type) where
  exec : ο → σ → σ
  env : ε → ο

/-- A trace: operations, oldest first, each with the state it was executed in. -/
abbrev Trace (σ ο : Type) := List (ο × σ)

/-- State, what the environment does before each coming access, and the trace. -/
structure Conf (σ ο ε : Type) where
  state : σ
  script : List (List ε)
  trace : Trace σ ο

/-- Programs over configurations. -/
abbrev Prog (σ ο ε : Type) := StateM (Conf σ ο ε)

/-- One atomic operation, recorded. -/
def Conf.exec (M : Machine σ ο ε) (c : Conf σ ο ε) (o : ο) : Conf σ ο ε :=
  { c with state := M.exec o c.state, trace := c.trace ++ [(o, c.state)] }

/-- Execute one operation and return what it finds. -/
def call (M : Machine σ ο ε) (o : ο) (f : σ → α) : Prog σ ο ε α :=
  fun c ↦ (f c.state, c.exec M o)

/-- Execute one operation. -/
def perform (M : Machine σ ο ε) (o : ο) : Prog σ ο ε Unit := call M o fun _ ↦ ()

/-- Look at the state. -/
def observe (f : σ → α) : Prog σ ο ε α := fun c ↦ (f c.state, c)

/-- Let the environment act as the script says. -/
def interfere (M : Machine σ ο ε) : Prog σ ο ε Unit := fun c ↦
  match c.script with
  | [] => ((), c)
  | es :: rest => ((), es.foldl (fun c e ↦ c.exec M (M.env e)) { c with script := rest })

/-- One access: interference, then the operation and the value it reads. -/
def access (M : Machine σ ο ε) (o : ο) (f : σ → α) : Prog σ ο ε α := do
  interfere M
  call M o f

/-- Replace the script. -/
def schedule (script : List (List ε)) : Prog σ ο ε Unit := fun c ↦ ((), { c with script })

/-- The accesses the script still speaks of. -/
def scheduled : Prog σ ο ε Nat := fun c ↦ (c.script.length, c)

/-- Start a new trace. -/
def restart : Prog σ ο ε Unit := fun c ↦ ((), { c with trace := [] })

/-! ### Triples -/

/-- Assertions about a state and the trace that led to it. -/
abbrev Assertion (σ ο : Type) := σ → Trace σ ο → Prop

/-- From every configuration that meets `P`, the program ends in one that meets `Q`. -/
def Triple (P : Assertion σ ο) (x : Prog σ ο ε α) (Q : α → Assertion σ ο) : Prop :=
  ∀ c : Conf σ ο ε, P c.state c.trace → Q (x c).1 (x c).2.state (x c).2.trace

/-- The program keeps an assertion. -/
abbrev Keeps (I : Assertion σ ο) (x : Prog σ ο ε α) : Prop := Triple I x fun _ ↦ I

/-- One operation keeps the assertion. -/
def OpKeeps (M : Machine σ ο ε) (I : Assertion σ ο) (o : ο) : Prop :=
  ∀ s t, I s t → I (M.exec o s) (t ++ [(o, s)])

/-- Every operation of the environment keeps the assertion. -/
def Stable (M : Machine σ ο ε) (I : Assertion σ ο) : Prop := ∀ e, OpKeeps M I (M.env e)

variable {M : Machine σ ο ε} {P P' : Assertion σ ο} {Q Q' : α → Assertion σ ο}

/-- Assertions that the environment keeps one by one it keeps together. -/
theorem Stable.and (h : Stable M P) (h' : Stable M P') : Stable M fun s t ↦ P s t ∧ P' s t :=
  fun e s t hp ↦ ⟨h e s t hp.1, h' e s t hp.2⟩

theorem Triple.pure (a : α) (h : ∀ s t, P s t → Q a s t) :
    Triple P (pure a : Prog σ ο ε α) Q :=
  fun c hc ↦ h c.state c.trace hc

theorem Triple.bind {x : Prog σ ο ε β} {f : β → Prog σ ο ε α} {R : β → Assertion σ ο}
    (hx : Triple P x R) (hf : ∀ b, Triple (R b) (f b) Q) : Triple P (x >>= f) Q :=
  fun c hc ↦ hf (x c).1 (x c).2 (hx c hc)

/-- Rule of consequence. -/
theorem Triple.weaken {x : Prog σ ο ε α} (h : Triple P x Q) (hp : ∀ s t, P' s t → P s t)
    (hq : ∀ a s t, Q a s t → Q' a s t) : Triple P' x Q' :=
  fun c hc ↦ hq _ _ _ (h c (hp _ _ hc))

theorem Triple.pre {x : Prog σ ο ε α} (h : Triple P x Q) (hp : ∀ s t, P' s t → P s t) :
    Triple P' x Q :=
  h.weaken hp fun _ _ _ hq ↦ hq

theorem Triple.post {x : Prog σ ο ε α} (h : Triple P x Q) (hq : ∀ a s t, Q a s t → Q' a s t) :
    Triple P x Q' :=
  h.weaken (fun _ _ hp ↦ hp) hq

/-- Nothing is said of what a program leaves. -/
theorem Triple.forget (x : Prog σ ο ε α) : Triple P x fun _ _ _ ↦ True := fun _ _ ↦ trivial

/-- Two specifications of one program hold together. -/
theorem Triple.and {x : Prog σ ο ε α} (h : Triple P x Q) (h' : Triple P' x Q') :
    Triple (fun s t ↦ P s t ∧ P' s t) x fun a s t ↦ Q a s t ∧ Q' a s t :=
  fun c hc ↦ ⟨h c hc.1, h' c hc.2⟩

/-- A fact about neither state nor trace moves into the context. -/
theorem Triple.of_fact {p : Prop} {x : Prog σ ο ε α} (h : p → Triple P x Q) :
    Triple (fun s t ↦ p ∧ P s t) x Q :=
  fun c hc ↦ h hc.1 c hc.2

theorem Triple.ite {p : Prop} {_ : Decidable p} {x y : Prog σ ο ε α} (hx : p → Triple P x Q)
    (hy : ¬p → Triple P y Q) : Triple P (if p then x else y) Q := by
  split
  · next h => exact hx h
  · next h => exact hy h

theorem Triple.call {f : σ → α} (o : ο)
    (h : ∀ s t, P s t → Q (f s) (M.exec o s) (t ++ [(o, s)])) : Triple P (call M o f) Q :=
  fun c hc ↦ h c.state c.trace hc

theorem Triple.perform {Q : Unit → Assertion σ ο} (o : ο)
    (h : ∀ s t, P s t → Q () (M.exec o s) (t ++ [(o, s)])) : Triple P (perform M o) Q :=
  Triple.call o h

theorem Triple.observe {f : σ → α} (h : ∀ s t, P s t → Q (f s) s t) :
    Triple P (observe f : Prog σ ο ε α) Q :=
  fun c hc ↦ h c.state c.trace hc

private theorem events_keep (h : Stable M P) (es : List ε) (c : Conf σ ο ε)
    (hc : P c.state c.trace) :
    P (es.foldl (fun c e ↦ c.exec M (M.env e)) c).state
      (es.foldl (fun c e ↦ c.exec M (M.env e)) c).trace := by
  induction es generalizing c with
  | nil => exact hc
  | cons e es ih => exact ih _ (h e _ _ hc)

/-- A stable assertion survives interference. -/
theorem keeps_interfere (h : Stable M P) : Keeps P (interfere M) := by
  intro c hc
  unfold interfere
  split
  · exact hc
  · exact events_keep h _ _ hc

/-- An access: its precondition is stable, and the operation leads from it to the
postcondition with the value read. -/
theorem Triple.access {f : σ → α} (o : ο) (hs : Stable M P)
    (h : ∀ s t, P s t → Q (f s) (M.exec o s) (t ++ [(o, s)])) : Triple P (access M o f) Q :=
  fun c hc ↦ h _ _ (keeps_interfere hs c hc)

theorem Triple.schedule {Q : Unit → Assertion σ ο} (script : List (List ε))
    (h : ∀ s t, P s t → Q () s t) : Triple P (schedule script : Prog σ ο ε Unit) Q :=
  fun c hc ↦ h c.state c.trace hc

theorem Triple.scheduled {Q : Nat → Assertion σ ο} (h : ∀ n s t, P s t → Q n s t) :
    Triple P (scheduled : Prog σ ο ε Nat) Q :=
  fun c hc ↦ h _ c.state c.trace hc

theorem Triple.restart {Q : Unit → Assertion σ ο} (h : ∀ s t, P s t → Q () s []) :
    Triple P (restart : Prog σ ο ε Unit) Q :=
  fun c hc ↦ h c.state c.trace hc

/-! ### Programs that keep an assertion -/

theorem keeps_pure (a : α) : Keeps P (pure a : Prog σ ο ε α) := Triple.pure a fun _ _ h ↦ h

theorem keeps_bind {x : Prog σ ο ε β} {f : β → Prog σ ο ε α} (hx : Keeps P x)
    (hf : ∀ b, Keeps P (f b)) : Keeps P (x >>= f) :=
  Triple.bind hx hf

theorem keeps_observe (f : σ → α) : Keeps P (observe f : Prog σ ο ε α) :=
  Triple.observe fun _ _ h ↦ h

theorem keeps_schedule (script : List (List ε)) : Keeps P (schedule script : Prog σ ο ε Unit) :=
  Triple.schedule script fun _ _ h ↦ h

theorem keeps_scheduled : Keeps P (scheduled : Prog σ ο ε Nat) :=
  Triple.scheduled fun _ _ _ h ↦ h

theorem keeps_call {o : ο} (h : OpKeeps M P o) (f : σ → α) : Keeps P (call M o f) :=
  Triple.call o h

theorem keeps_perform {o : ο} (h : OpKeeps M P o) : Keeps P (perform M o) := keeps_call h _

theorem keeps_access {o : ο} (hs : Stable M P) (h : OpKeeps M P o) (f : σ → α) :
    Keeps P (access M o f) :=
  Triple.access o hs h

theorem keeps_ite {p : Prop} {_ : Decidable p} {x y : Prog σ ο ε α} (hx : Keeps P x)
    (hy : Keeps P y) : Keeps P (if p then x else y) :=
  Triple.ite (fun _ ↦ hx) fun _ ↦ hy

/-- A program keeps two assertions together if it keeps the second, and the first with its
help. -/
theorem keeps_and {x : Prog σ ο ε α} (h : Triple (fun s t ↦ P s t ∧ P' s t) x fun _ ↦ P)
    (h' : Keeps P' x) : Keeps (fun s t ↦ P s t ∧ P' s t) x :=
  fun c hc ↦ ⟨h c hc, h' c hc.2⟩

/-- A run of programs that all keep an assertion keeps it. -/
theorem keeps_run (steps : List (Prog σ ο ε Unit)) (h : ∀ x ∈ steps, Keeps P x)
    (c : Conf σ ο ε) (hc : P c.state c.trace) :
    P (steps.foldl (fun c x ↦ (x c).2) c).state (steps.foldl (fun c x ↦ (x c).2) c).trace := by
  induction steps generalizing c with
  | nil => exact hc
  | cons x steps ih =>
    exact ih (fun y hy ↦ h y (List.mem_cons_of_mem _ hy)) _ (h x List.mem_cons_self c hc)

end CanDybug.Base
