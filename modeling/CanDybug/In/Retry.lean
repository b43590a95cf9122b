import CanDybug.In.Lifetime

/-!
# Retrying the IN pipe

What `USBD_CDC_Transmit` refuses stays queued, and without a transfer in flight there is no
completion to offer it again; only `CanIf_AddMessage` does. But it calls `CanIf_SendInData`
where its message fits, so a queue that is full stays full until the pipe is opened again.
-/

namespace CanDybug

namespace InPipe

/-- If something is queued after `CanIf_AddMessage` and no transfer is in flight, the call has
offered a region to `USBD_CDC_Transmit`. -/
def Retried (p : InPipe) : InStep → Prop
  | .addMessage msg ready =>
    (p.addMessage msg ready).queue.empty = false → (p.addMessage msg ready).transfer = none →
      (canIfAddMessage (p.accepts ready) msg p.queue).1.isSome = true
  | _ => True

/-- The message fits, or nothing is queued, or a transfer is in flight. -/
def MayRetry (p : InPipe) : InStep → Prop
  | .addMessage msg _ =>
    msg.length + 1 ≤ p.queue.space ∨ p.queue.empty = true ∨ p.transfer.isSome = true
  | _ => True

instance decidableRetried (p : InPipe) : (s : InStep) → Decidable (p.Retried s)
  | .addMessage _ _ => inferInstanceAs (Decidable (_ → _ → _))
  | .epInComplete _ | .canIfOpen | .fetch _ | .drop => .isTrue trivial

instance decidableSteps (P : InPipe → InStep → Prop) [∀ p s, Decidable (P p s)] (p : InPipe) :
    (steps : List InStep) → Decidable (Along P p steps)
  | [] => .isTrue trivial
  | s :: steps =>
    have := decidableSteps P (p.step s) steps
    inferInstanceAs (Decidable (_ ∧ _))

/-- A message that does not fit is not even a reason to send. -/
theorem addMessage_dropped {p : InPipe} (h : p.Valid) {msg : List UInt8}
    (hf : ¬ msg.length + 1 ≤ p.queue.space) (ready : Bool) : p.addMessage msg ready = p := by
  have hfull := addMessage_full h.wellFormed (by rwa [← Queue.space_eq h.wellFormed])
    (p.accepts ready)
  unfold addMessage
  rw [hfull, after]
  cases ha : p.accepts ready with
  | false => rfl
  | true =>
    have ht : p.transfer = none := by simpa using (Bool.and_eq_true_iff.mp ha).2
    simp [← ht]

/-- Each call retries exactly if the condition holds before it. -/
theorem retried_iff {p : InPipe} (h : p.Valid) (s : InStep) : p.Retried s ↔ p.MayRetry s := by
  have hq := h.wellFormed
  cases s with
  | addMessage msg ready =>
    by_cases hf : msg.length + 1 ≤ p.queue.space
    · refine iff_of_true (fun _ _ ↦ ?_) (.inl hf)
      -- Something is queued now, so a region is offered.
      have hfit : msg.length + 1 ≤ p.queue.size - p.queue.count := by
        rwa [← Queue.space_eq hq]
      have hne : (appended p.queue msg).tail ≠ (appended p.queue msg).head := by
        intro he
        have hempty : (appended p.queue msg).empty = true := by simpa [Queue.empty] using he
        have hnil := (Queue.empty_iff (q := appended p.queue msg) (hq.putAll _)).mp hempty
        rw [appended_contents hq hfit] at hnil
        simp [encode] at hnil
      obtain ⟨g, -, he⟩ := sendInData_spec (q := appended p.queue msg) (hq.putAll _) hne
      rw [addMessage_fits hq hfit, he]
      rfl
    · have hnone : (canIfAddMessage (p.accepts ready) msg p.queue).1 = none := by
        rw [addMessage_full hq (by rwa [← Queue.space_eq hq])]
      simp only [Retried, MayRetry, addMessage_dropped h hf, hnone, hf, false_or]
      cases p.queue.empty <;> cases p.transfer <;> simp
  | _ => exact Iff.rfl

/-! ### Runs -/

/-- What amounts to the same in every valid state amounts to the same along a run. -/
private theorem along_congr {P Q : InPipe → InStep → Prop}
    (hs : ∀ p : InPipe, p.Valid → ∀ s, P p s ↔ Q p s) {p : InPipe} (h : p.Valid)
    (steps : List InStep) : Along P p steps ↔ Along Q p steps := by
  induction steps generalizing p with
  | nil => exact Iff.rfl
  | cons s steps ih => exact and_congr (hs p h s) (ih (h.step s))

/-- Along any sequence of calls, completions, openings and fetches: every call retries exactly
if each message that does not fit finds nothing queued or a transfer in flight. -/
theorem canIfIn_retried (buffer : Nat → UInt8) (steps : List InStep) :
    Along Retried (initial buffer) steps ↔ Along MayRetry (initial buffer) steps :=
  along_congr (fun _ h s ↦ retried_iff h s) (valid_initial buffer) steps

/-- A full queue without a transfer in flight stays as it is until the pipe is opened. -/
theorem full_stuck {p : InPipe} (h : p.Valid) (full : p.queue.full = true)
    (idle : p.transfer = none) (steps : List InStep) (closed : ∀ s ∈ steps, s ≠ .canIfOpen) :
    p.run steps = p := by
  have step (s : InStep) (hs : s ≠ .canIfOpen) : p.step s = p := by
    cases s with
    | addMessage msg ready =>
      have hspace := (Queue.full_iff h.wellFormed).mp full
      exact addMessage_dropped h (by omega) ready
    | epInComplete ready => simp [InPipe.step, epInComplete, idle]
    | canIfOpen => contradiction
    | fetch n =>
      rw [InPipe.step, fetch, idle]
      exact congrArg (InPipe.mk p.queue) idle.symm
    | drop => exact congrArg (InPipe.mk p.queue) idle.symm
  induction steps with
  | nil => rfl
  | cons s steps ih =>
    have hrun : p.run (s :: steps) = (p.step s).run steps := rfl
    rw [hrun, step s (closed s List.mem_cons_self)]
    exact ih fun s' hs ↦ closed s' (List.mem_cons_of_mem _ hs)

/-- Acknowledgements fill the queue while `USBD_CDC_Transmit` refuses; then it would accept. -/
def refusedFull : List InStep :=
  List.replicate 128 (.addMessage [0x80] false) ++ [.addMessage [0x80] true]

/-- Messages and completions. -/
def isCall : InStep → Bool
  | .addMessage _ _ | .epInComplete _ => true
  | _ => false

/-- The last call does not offer anything. -/
theorem canIfIn_notRetried :
    ¬ ∀ buffer (steps : List InStep), (∀ s ∈ steps, isCall s = true) →
      Along Retried (initial buffer) steps := by
  intro h
  have hn := h (fun _ ↦ 0) refusedFull (by decide +kernel)
  revert hn
  decide +kernel

end InPipe

end CanDybug
