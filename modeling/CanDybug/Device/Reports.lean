import CanDybug.Device.Run

/-!
# Reports of bus errors

`CEC_CAN_IRQHandler` calls `Can_BusError` where the error status shows anything at all, and
`Can_BusError` reports where it shows an error code; neither looks at `ERRI`, which tells that
an error event is new. The code stays until the next frame completes, so another interrupt
that comes first reports the same event again.
-/

namespace CanDybug

open Base

/-- A report of a bus error. -/
def Op.reports : Op → Bool
  | addMessage (code :: _) => code == canifBusError
  | _ => false

/-- An error event sets `ERRI` anew. -/
def signals (e : Op × State) : Bool :=
  match e.1 with
  | .event (.error _) => !e.2.can.erri
  | _ => false

/-- Reports offered to `CanIf_AddMessage`. -/
def reports (t : Log) : Nat := t.countP fun e ↦ e.1.reports

/-- Error events that the peripheral has signalled. -/
def signalled (t : Log) : Nat := t.countP signals

/-- Each report is offered while an error event is signalled. -/
def Fresh (t : Log) : Prop := ∀ e ∈ t, e.1.reports = true → e.2.can.erri = true

instance decidableFresh (t : Log) : Decidable (Fresh t) :=
  inferInstanceAs (Decidable (∀ e ∈ t, _))

theorem fresh_concat (t : Log) (e : Op × State) :
    Fresh (t ++ [e]) ↔ Fresh t ∧ (e.1.reports = true → e.2.can.erri = true) := by
  simp [Fresh, or_imp, forall_and]

@[simp] theorem reports_concat (t : Log) (e : Op × State) :
    reports (t ++ [e]) = reports t + e.1.reports.toNat := by
  cases h : e.1.reports <;> simp [reports, h]

@[simp] theorem signalled_concat (t : Log) (e : Op × State) :
    signalled (t ++ [e]) = signalled t + (signals e).toNat := by
  cases h : signals e <;> simp [signalled, h]

/-- Every report has an error event of its own, and so has `ERRI`. -/
def Matched (s : State) (t : Log) : Prop :=
  Fresh t → reports t + s.can.erri.toNat ≤ signalled t

/-- A report has been offered, and `ERRI` is still to be cleared. -/
def Reported (_ : State) (t : Log) : Prop := Fresh t → reports t ≤ signalled t

/-- `ERRI` is set by error events only. -/
theorem erri_exec (o : Op) (s : State) :
    (s.exec o).can.erri.toNat ≤ s.can.erri.toNat + (signals (o, s)).toNat := by
  have receive (rx : RxMailBox) : (s.can.receive rx).erri = s.can.erri := by
    unfold Can.receive
    split <;> rfl
  cases o with
  | event e =>
    cases e with
    | error v => cases h : s.can.erri <;> simp [State.exec, State.event, signals, h]
    | rx frame => simp [State.exec, State.event, receive]
    | _ => exact Nat.le_add_right _ _
  | deliver bytes =>
    rw [(s.exec_delivered bytes).1]
    exact Nat.le_add_right _ _
  | resetCan | clearERRI => exact Nat.zero_le _
  | _ => exact Nat.le_add_right _ _

/-- What is not a report keeps reports and events matched. -/
theorem Matched.keep {o : Op} (ho : o.reports = false) : OpKeeps device Matched o := by
  intro s t h hf
  have hs := h ((fresh_concat t _).mp hf).1
  have he := erri_exec o s
  rw [reports_concat, signalled_concat, ho]
  change reports t + 0 + (s.exec o).can.erri.toNat ≤ _
  omega

theorem matched_stable : Stable device Matched := fun _ ↦ Matched.keep rfl

theorem reported_stable : Stable device Reported := by
  intro e s t h hf
  have hs := h ((fresh_concat t _).mp hf).1
  rw [reports_concat, signalled_concat]
  exact Nat.add_le_add hs (Nat.zero_le _)

/-- Any message may be offered while `ERRI` is set. -/
theorem Matched.addMessage {s : State} {t : Log} (h : Matched s t) (msg : List UInt8) :
    Reported (s.exec (.addMessage msg)) (t ++ [(.addMessage msg, s)]) := by
  intro hf
  obtain ⟨hf, he⟩ := (fresh_concat t _).mp hf
  have hs := h hf
  rw [reports_concat, signalled_concat]
  cases hr : (Op.addMessage msg).reports with
  | false => exact (Nat.le_add_right _ _).trans (hs.trans (Nat.le_add_right _ _))
  | true =>
    rw [he hr] at hs
    exact hs.trans (Nat.le_add_right _ _)

theorem Reported.clearERRI {s : State} {t : Log} (h : Reported s t) :
    Matched (s.exec .clearERRI) (t ++ [(.clearERRI, s)]) := by
  intro hf
  have hs := h ((fresh_concat t _).mp hf).1
  rwa [reports_concat, signalled_concat]

/-! ### The handlers -/

/-- The type byte of a frame has no bits but the two of its type. -/
theorem typeByte_ne (w : BitVec 32) :
    byteAt (w &&& canIdtypeExtRtr) 0 ≠ canifBusError := by
  intro h
  have hb := congrArg (fun b : UInt8 ↦ b.toBitVec.getLsbD 6) h
  simp only [byteAt, UInt8.toBitVec_ofBitVec, BitVec.getLsbD_extractLsb', BitVec.getLsbD_and] at hb
  rw [show canIdtypeExtRtr.getLsbD (8 * 0 + 6) = false by decide, Bool.and_false, Bool.and_false,
    show canifBusError.toBitVec.getLsbD 6 = true by decide] at hb
  contradiction

/-- An acknowledgement has its flag set. -/
theorem ackByte_ne (b : UInt8) : canifAckFlag ||| b ≠ canifBusError := by
  intro h
  have hb := congrArg (fun b : UInt8 ↦ b.toBitVec.getLsbD 7) h
  simp only [UInt8.toBitVec_or, BitVec.getLsbD_or] at hb
  rw [show canifAckFlag.toBitVec.getLsbD 7 = true by decide, Bool.true_or,
    show canifBusError.toBitVec.getLsbD 7 = false by decide] at hb
  contradiction

private theorem matched_receive : Keeps Matched canIfReceiveOutData :=
  keeps_canIfReceiveOutData matched_stable (Matched.keep rfl) fun _ ↦ Matched.keep rfl

private theorem matched_canPostFrames : Keeps Matched canPostFrames :=
  keeps_canPostFrames (keeps_postOne matched_stable (Matched.keep rfl)
    (fun _ s t h _ ↦ Matched.keep rfl s t h) fun _ ↦ Matched.keep rfl)

private theorem matched_canFrameSent : Keeps Matched canFrameSent := by
  refine keeps_canFrameSent (keeps_scanMailbox matched_stable (fun _ _ ↦ Matched.keep rfl)
    (fun tir ↦ Matched.keep ?_) fun _ ↦ Matched.keep rfl) matched_canPostFrames matched_receive
  exact beq_false_of_ne (ackByte_ne _)

private theorem matched_canFrameReceived (stack : Nat → UInt8) :
    Keeps Matched (canFrameReceived stack) := by
  refine keeps_receiveLoop matched_stable (Matched.keep rfl) (Matched.keep rfl) stack
    (fun rx ↦ Matched.keep ?_) (Matched.keep rfl)
  obtain ⟨msg, hmsg⟩ := receivedMsg_cons rx stack
  rw [hmsg]
  exact beq_false_of_ne (typeByte_ne _)

/-- A report is matched by the event whose `ERRI` is cleared after it. -/
private theorem matched_canBusError : Keeps Matched canBusError := by
  refine canBusError_rule matched_stable reported_stable matched_stable (Matched.keep rfl)
    (fun msg _ s t h ↦ h.addMessage msg) ?_ (fun s t h ↦ h.clearERRI) (fun _ _ h ↦ h)
    (fun _ ↦ Matched.keep rfl) (fun s t h _ ↦ Matched.keep (o := .resetTxQ) rfl s t h)
  intro s t h hf
  exact (Nat.le_add_right _ _).trans (h hf)

theorem matched_program (a : Action) : Keeps Matched a.program := by
  have reset (s : State) (t : Log) (_ : Matched s t) : Matched (s.exec .resetCan) [] :=
    fun _ ↦ Nat.le_refl 0
  cases a with
  | canIfOpen bitrate init =>
    exact keeps_canIfOpen matched_stable reset (Matched.keep rfl) (Matched.keep rfl)
      matched_receive bitrate init
  | canClose dropped => exact keeps_canClose matched_stable reset (Matched.keep rfl) dropped
  | _ =>
    exact keeps_program matched_stable (Matched.keep rfl) (Matched.keep rfl) (Matched.keep rfl)
      (Matched.keep rfl) matched_canFrameReceived
      (keeps_outCompletion (fun _ ↦ Matched.keep rfl) (fun _ ↦ Matched.keep rfl)
        (fun _ _ ↦ Matched.keep rfl) (Matched.keep rfl) (fun _ _ ↦ Matched.keep rfl)
        matched_canPostFrames matched_receive)
      matched_canFrameSent matched_canBusError _ rfl

/-! ### Runs -/

/-- In every run, and since the last `CanIf_Open` or `Can_Close`: as long as each report is
offered while `ERRI` is set, there are no more reports than error events. -/
theorem reports_le_signalled (mailboxes : Fin 3 → TxMailBox) (txq : Nat → TxMailBox)
    (inb outb : Nat → UInt8) (steps : List Step) (c : Config)
    (hc : c = run (boot mailboxes txq inb outb) steps) (fresh : Fresh c.trace) :
    reports c.trace ≤ signalled c.trace := by
  subst hc
  have h := keeps_anyRun matched_program (c := boot mailboxes txq inb outb)
    (fun _ ↦ Nat.le_refl 0) steps
  exact (Nat.le_add_right _ _).trans (h fresh)

/-- Two errors, each reported before the next, and a frame completed in between. -/
theorem reports_le_signalled_twice :
    reports (run (boot (fun _ ↦ ⟨0, 0, 0, 0⟩) (fun _ ↦ ⟨0, 0, 0, 0⟩) (fun _ ↦ 0) fun _ ↦ 0)
        [⟨.canIfOpen true true, []⟩, ⟨.event (.error 0x10), []⟩, ⟨.canIrq fun _ ↦ 0, []⟩,
          ⟨.event (.esr 0), []⟩, ⟨.event (.error 0x20), []⟩, ⟨.canIrq fun _ ↦ 0, []⟩]).trace ≤
      signalled (run (boot (fun _ ↦ ⟨0, 0, 0, 0⟩) (fun _ ↦ ⟨0, 0, 0, 0⟩) (fun _ ↦ 0) fun _ ↦ 0)
        [⟨.canIfOpen true true, []⟩, ⟨.event (.error 0x10), []⟩, ⟨.canIrq fun _ ↦ 0, []⟩,
          ⟨.event (.esr 0), []⟩, ⟨.event (.error 0x20), []⟩, ⟨.canIrq fun _ ↦ 0, []⟩]).trace :=
  reports_le_signalled (fun _ ↦ ⟨0, 0, 0, 0⟩) (fun _ ↦ ⟨0, 0, 0, 0⟩) (fun _ ↦ 0) (fun _ ↦ 0)
    [⟨.canIfOpen true true, []⟩, ⟨.event (.error 0x10), []⟩, ⟨.canIrq fun _ ↦ 0, []⟩,
      ⟨.event (.esr 0), []⟩, ⟨.event (.error 0x20), []⟩, ⟨.canIrq fun _ ↦ 0, []⟩]
    _ rfl (by decide +kernel)

/-- Interrupts, OUT transfers, and events among which the error status changes only together
with an error event. -/
def Step.interrupts (a : Step) : Bool :=
  a.script.isEmpty &&
    match a.action with
    | .canIrq _ | .epOutComplete _ => true
    | .event (.esr _) => false
    | .event _ => true
    | _ => false

/-- An error makes the status passive while a frame is requested. Its abort takes effect, and
the interrupt finds the same error code. -/
def reportedTwice : List Step :=
  [⟨.epOutComplete [5, 0, 1, 2, 7], []⟩, ⟨.event (.error 0x12), []⟩, ⟨.canIrq fun _ ↦ 0, []⟩,
    ⟨.event (.txAbort 0), []⟩, ⟨.canIrq fun _ ↦ 0, []⟩]

/-- One error event, two reports. -/
theorem reports_repeat :
    ¬ ∀ mailboxes txq inb outb script steps, (∀ a ∈ steps, Step.interrupts a = true) → ∀ c,
      c = run (boot mailboxes txq inb outb) ([⟨.canIfOpen true true, script⟩] ++ steps) →
      reports c.trace ≤ signalled c.trace := by
  intro h
  have hn := h (fun _ ↦ ⟨0, 0, 0, 0⟩) (fun _ ↦ ⟨0, 0, 0, 0⟩) (fun _ ↦ 0) (fun _ ↦ 0) []
    reportedTwice (by decide) _ rfl
  revert hn
  decide +kernel

end CanDybug
