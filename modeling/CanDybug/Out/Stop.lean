import CanDybug.Device.Log
import CanDybug.Out.Space

/-!
# Reception after a message that is not valid

`CanIf_EpOutComplete` stops reception by not arming the next transfer. `Can_FrameSent` does
not know of the stop: when it acknowledges a frame it evaluates the condition of
`CanIf_ReceiveOutData`, and reception goes on exactly if the condition holds there.
-/

namespace CanDybug

open Base

/-- A call of `USBD_CDC_Receive`, or bytes of the host taken as a request. -/
def Op.takesInput : Op → Bool
  | usbReceive _ | handleRequest _ _ => true
  | _ => false

/-- After a message that is not valid no more input is taken. -/
def StaysStopped (t : Log) : Prop := ∀ e ∈ afterStop t, e.1.takesInput = false

instance (t : Log) : Decidable (StaysStopped t) := inferInstanceAs (Decidable (∀ e ∈ _, _))

/-- Whenever the condition of `CanIf_ReceiveOutData` is evaluated after a message that is not
valid, there is too little space in the transmit queue or an error that blocks. -/
def NeverAccepting (t : Log) : Prop :=
  ∀ e ∈ afterStop t, e.1 = .receiveOutData → e.2.accepting = false

/-- Between handlers: as long as the condition never held, nothing was taken and nothing is
armed; and where it held, a transfer was armed. -/
def StopLog (s : State) (t : Log) : Prop :=
  (NeverAccepting t → StaysStopped t ∧ (stopped t = true → s.armed = none)) ∧
    (StaysStopped t → NeverAccepting t)

theorem stopLog_of_not_stopped {s : State} {t : Log} (h : stopped t = false) : StopLog s t := by
  simp [StopLog, StaysStopped, NeverAccepting, afterStop_eq_nil h, h]

/-- Nothing that follows mends a trace in which the condition held and input was taken. -/
private def Broken (t : Log) : Prop := ¬ NeverAccepting t ∧ ¬ StaysStopped t

private theorem Broken.concat {t : Log} (h : Broken t) (e : Op × State) : Broken (t ++ [e]) :=
  ⟨fun hn ↦ h.1 ((forall_afterStop_concat t e).mp hn).1,
    fun hs ↦ h.2 ((forall_afterStop_concat t e).mp hs).1⟩

private theorem Broken.stopLog {t : Log} (h : Broken t) (s : State) : StopLog s t :=
  ⟨fun hn ↦ absurd hn h.1, fun hs ↦ absurd hs h.2⟩

/-- Operations that neither take input, nor evaluate the condition, nor change what is armed
or stopped. -/
def Op.neutral : Op → Bool
  | receiveOutData | usbReceive _ | handleRequest _ _ | stop | deliver _ => false
  | _ => true

theorem StopLog.neutral {o : Op} (ho : o.neutral = true) : OpKeeps device StopLog o := by
  intro s t h
  have hst : stopped (t ++ [(o, s)]) = stopped t := by
    rw [stopped_concat]
    cases o <;> first | exact Bool.or_false _ | contradiction
  have hn : NeverAccepting (t ++ [(o, s)]) ↔ NeverAccepting t := by
    refine (forall_afterStop_concat t (o, s)).trans (and_iff_left fun _ he ↦ ?_)
    subst he
    contradiction
  have hs : StaysStopped (t ++ [(o, s)]) ↔ StaysStopped t := by
    refine (forall_afterStop_concat t (o, s)).trans (and_iff_left fun _ ↦ ?_)
    cases o <;> first | rfl | contradiction
  have ha : s.armed = none → (s.exec o).armed = none := by
    intro ha
    cases o with
    | event e => exact (s.exec_event e).2.2.trans ha
    | dropTransfers => rfl
    | receiveOutData | usbReceive | handleRequest | stop | deliver => contradiction
    | _ => exact ha
  exact ⟨fun hnew ↦ ⟨hs.mpr (h.1 (hn.mp hnew)).1, fun hstop ↦
    ha ((h.1 (hn.mp hnew)).2 (hst ▸ hstop))⟩, fun hnew ↦ hn.mpr (h.2 (hs.mp hnew))⟩

theorem stopLog_stable : Stable device StopLog := fun _ ↦ StopLog.neutral rfl

/-- Where the condition holds after a stop, a transfer is armed. -/
theorem stopLog_receive : Keeps StopLog canIfReceiveOutData := by
  -- Between the condition and the call: reception is about to be resumed, or was not stopped.
  have hw : Stable device fun _ t ↦ stopped t = false ∨ ¬ NeverAccepting t := by
    rintro e s t (h | h)
    · left
      rw [stopped_concat, h]
      rfl
    · exact .inr fun hn ↦ h ((forall_afterStop_concat _ _).mp hn).1
  have hst (s : State) (t : Log) : stopped (t ++ [(.receiveOutData, s)]) = stopped t := by
    rw [stopped_concat]
    exact Bool.or_false _
  apply canIfReceiveOutData_rule stopLog_stable hw
  · intro s t h hgo
    have hn : NeverAccepting (t ++ [(.receiveOutData, s)]) ↔ NeverAccepting t :=
      (forall_afterStop_concat _ _).trans (and_iff_left fun _ _ ↦ hgo)
    have hq : StaysStopped (t ++ [(.receiveOutData, s)]) ↔ StaysStopped t :=
      (forall_afterStop_concat _ _).trans (and_iff_left fun _ ↦ rfl)
    exact ⟨fun h' ↦ ⟨hq.mpr (h.1 (hn.mp h')).1, fun hstop ↦
      (h.1 (hn.mp h')).2 (hst s t ▸ hstop)⟩, fun h' ↦ hn.mpr (h.2 (hq.mp h'))⟩
  · intro s t h hgo
    cases hstop : stopped t with
    | false => exact .inl ((hst s t).trans hstop)
    | true =>
      refine .inr fun hn ↦ ?_
      have hf := ((forall_afterStop_concat _ _).mp hn).2 hstop rfl
      rw [hf] at hgo
      contradiction
  · intro s t h g _
    cases hstop : stopped t with
    | false =>
      apply stopLog_of_not_stopped
      rw [stopped_concat, hstop]
      rfl
    | true =>
      rcases h with h | h
      · rw [h] at hstop
        contradiction
      · refine Broken.stopLog ⟨fun hn ↦ h ((forall_afterStop_concat _ _).mp hn).1, fun hq ↦ ?_⟩ _
        exact absurd (((forall_afterStop_concat _ _).mp hq).2 hstop) (by simp [Op.takesInput])

/-- While the loop runs nothing has been stopped, or the trace is broken already. -/
private def Looping (_ _ : Nat) (_ : State) (t : Log) : Prop := stopped t = false ∨ Broken t

private theorem Looping.concat {t : Log} (h : stopped t = false ∨ Broken t) (o : Op)
    (ho : o ≠ .stop) (s : State) : stopped (t ++ [(o, s)]) = false ∨ Broken (t ++ [(o, s)]) := by
  rcases h with h | h
  · left
    rw [stopped_concat, h]
    simpa using ho
  · exact .inr (h.concat _)

private theorem stopLog_stop {t : Log} (h : stopped t = false ∨ Broken t) {s : State}
    (ha : s.armed = none) : StopLog (s.exec .stop) (t ++ [(.stop, s)]) := by
  rcases h with h | h
  · have hn : afterStop (t ++ [(.stop, s)]) = [] := by
      rw [afterStop_concat, h, afterStop_eq_nil h]
      rfl
    have ha' : (s.exec .stop).armed = none := ha
    simp [StopLog, StaysStopped, NeverAccepting, hn, ha']
  · exact (h.concat _).stopLog _

/-- With the invariant of the OUT pipe. -/
private def StopSound (s : State) (t : Log) : Prop := StopLog s t ∧ SoundLog s t

private theorem stopSound_neutral {o : Op} (ho : o.neutral = true) (hp : o.plain = true) :
    OpKeeps device StopSound o :=
  fun s t h ↦ ⟨StopLog.neutral ho s t h.1, SoundLog.plain hp s t h.2⟩

private theorem stopSound_stable : Stable device StopSound := fun _ ↦ stopSound_neutral rfl rfl

private theorem stopLog_canPostFrames : Keeps StopLog canPostFrames :=
  keeps_canPostFrames (keeps_postOne stopLog_stable (StopLog.neutral rfl)
    (fun _ s t h _ ↦ StopLog.neutral rfl s t h) fun _ ↦ StopLog.neutral rfl)

private theorem stopSound_tail :
    Keeps StopSound (do canPostFrames; canIfReceiveOutData) :=
  keeps_bind (keeps_and (stopLog_canPostFrames.pre fun _ _ h ↦ h.1) soundLog_canPostFrames)
    fun _ ↦ keeps_and (stopLog_receive.pre fun _ _ h ↦ h.1) soundLog_receive

private theorem stopSound_out (bytes : List UInt8) : Keeps StopSound (outCompletion bytes) := by
  refine outCompletion_rule (L := Looping) (M := StopLog) (fun _ _ h ↦ h) ?_ ?_ ?_ ?_ ?_
    stopSound_tail
  · -- A transfer is outstanding, so reception was not stopped or has been resumed.
    intro g s t _ h hg _
    rw [loopEntries, List.append_cons]
    refine Looping.concat (Looping.concat ?_ (.deliver _) nofun _) (.sentinel _) nofun _
    cases hstop : stopped t with
    | false => exact .inl rfl
    | true =>
      have hn : ¬ NeverAccepting t := by
        intro hn
        rw [(h.1 hn).2 hstop] at hg
        contradiction
      exact .inr ⟨hn, fun hq ↦ hn (h.2 hq)⟩
  · intro _ _ s _ _ h _ _ _ _ _
    exact Looping.concat h (.handleRequest _ _) nofun s
  · rintro _ _ s _ hr h _ _ _ _ _ s' rfl
    exact stopLog_stop (Looping.concat h (.handleRequest _ _) nofun s) hr.armed
  · intro _ _ _ _ hr h _ _
    exact stopLog_stop h hr.armed
  · intro _ _ s _ _ h _
    rcases Looping.concat h (.moveFragment _ _) nofun s with h | h
    · exact stopLog_of_not_stopped h
    · exact h.stopLog _

theorem stopSound_kept : Kept StopSound where
  stable := stopSound_stable
  tsr := stopSound_neutral rfl rfl
  rfr := stopSound_neutral rfl rfl
  fifo := stopSound_neutral rfl rfl
  esr := stopSound_neutral rfl rfl
  message _ _ := stopSound_neutral rfl rfl
  release := stopSound_neutral rfl rfl
  completion := stopSound_neutral rfl rfl
  out := stopSound_out
  sent := keeps_canFrameSent
    (keeps_scanMailbox stopSound_stable (fun _ _ ↦ stopSound_neutral rfl rfl)
      (fun _ ↦ stopSound_neutral rfl rfl) fun _ ↦ stopSound_neutral rfl rfl)
    (keeps_and (stopLog_canPostFrames.pre fun _ _ h ↦ h.1) soundLog_canPostFrames)
    (keeps_and (stopLog_receive.pre fun _ _ h ↦ h.1) soundLog_receive)
  error := keeps_and ((keeps_canBusError stopLog_stable (StopLog.neutral rfl)
    (fun _ _ ↦ StopLog.neutral rfl) (StopLog.neutral rfl) (fun _ ↦ StopLog.neutral rfl)
    (StopLog.neutral rfl)).pre fun _ _ h ↦ h.1) soundLog_kept.error

private theorem stopLog_canIfOpen (bitrate init : Bool) :
    Keeps StopLog (canIfOpen bitrate init) :=
  keeps_canIfOpen stopLog_stable (fun _ _ _ ↦ stopLog_of_not_stopped rfl) (StopLog.neutral rfl)
    (StopLog.neutral rfl) stopLog_receive bitrate init

private theorem stopLog_canClose (dropped : Bool) : Keeps StopLog (canClose dropped) :=
  keeps_canClose stopLog_stable (fun _ _ _ ↦ stopLog_of_not_stopped rfl) (StopLog.neutral rfl)
    dropped

/-- After a message that is not valid, in any run and until the next `CanIf_Open`, no input
is taken exactly if the condition of `CanIf_ReceiveOutData` never holds when evaluated. -/
theorem staysStopped_iff (mailboxes : Fin 3 → TxMailBox) (txq : Nat → TxMailBox)
    (inb outb : Nat → UInt8) (steps : List Step) :
    StaysStopped (run (boot mailboxes txq inb outb) steps).trace ↔
      NeverAccepting (run (boot mailboxes txq inb outb) steps).trace := by
  have hb : StopSound (boot mailboxes txq inb outb).state (boot mailboxes txq inb outb).trace :=
    ⟨stopLog_of_not_stopped rfl, soundLog_boot mailboxes txq inb outb⟩
  have h := stopSound_kept.run
    (fun b i ↦ keeps_and ((stopLog_canIfOpen b i).pre fun _ _ h ↦ h.1) (soundLog_canIfOpen b i))
    (fun d ↦ keeps_and ((stopLog_canClose d).pre fun _ _ h ↦ h.1) (soundLog_canClose d)) hb steps
  exact ⟨h.1.2, fun hn ↦ (h.1.1 hn).1⟩

/-- A frame is posted, the next transfer is not valid, and then the frame is transmitted:
its acknowledgement arms reception, and bytes from inside the broken stream are queued. -/
def resumed : List Step :=
  [⟨.canIfOpen true true, []⟩, ⟨.epOutComplete [5, 0, 1, 2, 7], []⟩, ⟨.epOutComplete [0], []⟩,
    ⟨.event (.txOk 0), []⟩, ⟨.frameSent, []⟩, ⟨.epOutComplete [4, 2, 0, 3], []⟩]

/-- Reception does not stay stopped, and a frame is posted from what follows. -/
theorem staysStopped_fails :
    ¬ ∀ mailboxes txq inb outb steps,
      StaysStopped (run (boot mailboxes txq inb outb) steps).trace := by
  intro h
  have hn := h (fun _ ↦ ⟨0, 0, 0, 0⟩) (fun _ ↦ ⟨0, 0, 0, 0⟩) (fun _ ↦ 0) (fun _ ↦ 0) resumed
  revert hn
  decide +kernel

end CanDybug
