import CanDybug.Device.Run

/-!
# What a trace tells

The trace of a session runs from the last `CanIf_Open` or `Can_Close` on. Read off it here:
the bytes the host sent, the frames written to mailboxes, and what happened after a message
that was not valid.
-/

namespace CanDybug

open Base

/-- Completion of an OUT transfer. -/
def Op.delivers : Op → Bool
  | deliver _ => true
  | _ => false

/-- Bytes that an operation delivers. -/
def Op.delivered : Op → List UInt8
  | deliver bytes => bytes
  | _ => []

/-- The bytes received from the host. -/
def received (t : Log) : List UInt8 := t.flatMap fun e ↦ e.1.delivered

@[simp] theorem received_concat (t : Log) (o : Op) (s : State) :
    received (t ++ [(o, s)]) = received t ++ o.delivered := by
  simp [received]

theorem received_same (t : Log) {o : Op} (s : State) (h : o.delivers = false) :
    received (t ++ [(o, s)]) = received t := by
  rw [received_concat]
  cases o <;> first | exact List.append_nil _ | contradiction

/-- The frame an operation writes to a mailbox. -/
def postedBy (e : Op × State) : List TxMailBox :=
  match e.1 with
  | .postFrame _ => [e.2.canTxQ.get.1]
  | _ => []

/-- The frames that `Can_PostFrames` has written to mailboxes. -/
def posted (t : Log) : List TxMailBox := t.flatMap postedBy

@[simp] theorem posted_concat (t : Log) (e : Op × State) :
    posted (t ++ [e]) = posted t ++ postedBy e := by
  simp [posted]

/-- A message that was not valid has been met. -/
def stopped (t : Log) : Bool := t.any fun e ↦ e.1 == .stop

@[simp] theorem stopped_concat (t : Log) (o : Op) (s : State) :
    stopped (t ++ [(o, s)]) = (stopped t || o == .stop) := by
  simp [stopped]

/-- The part of a trace after the first message that was not valid. -/
def afterStop (t : Log) : Log := (t.dropWhile fun e ↦ e.1 != .stop).tail

theorem afterStop_concat (t : Log) (e : Op × State) :
    afterStop (t ++ [e]) = afterStop t ++ if stopped t then [e] else [] := by
  induction t with
  | nil => by_cases h : e.1 = .stop <;> simp [afterStop, stopped, h]
  | cons a t ih =>
    by_cases h : a.1 = .stop
    · simp [afterStop, stopped, h]
    · have hd (l : Log) : afterStop (a :: l) = afterStop l := by simp [afterStop, h]
      have hs : stopped (a :: t) = stopped t := by simp [stopped, h]
      rw [List.cons_append, hd, hd, hs, ih]

theorem afterStop_eq_nil {t : Log} (h : stopped t = false) : afterStop t = [] := by
  induction t with
  | nil => rfl
  | cons a t ih =>
    simp only [stopped, List.any_cons, Bool.or_eq_false_iff, beq_eq_false_iff_ne] at h
    have hd : afterStop (a :: t) = afterStop t := by simp [afterStop, h.1]
    rw [hd, ih h.2]

/-- A property of everything after the stop, one operation later. -/
theorem forall_afterStop_concat {p : Op × State → Prop} (t : Log) (e : Op × State) :
    (∀ x ∈ afterStop (t ++ [e]), p x) ↔ (∀ x ∈ afterStop t, p x) ∧ (stopped t = true → p e) := by
  rw [afterStop_concat, List.forall_mem_append]
  cases stopped t <;> simp

end CanDybug
