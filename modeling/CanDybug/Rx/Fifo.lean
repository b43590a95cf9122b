import CanDybug.Base.Flow
import CanDybug.Device.Log

/-!
# From the receive FIFO to messages

`Can_FrameReceived` reads the output mailbox of the FIFO, offers the message put together from
it, and releases the mailbox. The FIFO is a store that keeps the order, and loses a frame only
where one that arrives at a full FIFO overwrites the last one stored. So the messages offered are
those of the frames that arrived and were not overwritten, one each and in order; and the loop
ends only when the FIFO is empty.
-/

namespace CanDybug

open Base

/-- The frame that arrives. -/
def arrivedBy (e : Op × State) : List RxMailBox :=
  match e.1 with
  | .event (.rx rx) => [rx]
  | _ => []

/-- The frames that arrived. -/
def arrived (t : Log) : List RxMailBox := t.flatMap arrivedBy

/-- The frame that one that arrives overwrites: the last one of a full FIFO. -/
def overrunBy (e : Op × State) : List RxMailBox :=
  match e.1 with
  | .event (.rx _) => if e.2.can.fifo.length < 3 then [] else e.2.can.fifo.getLast?.toList
  | _ => []

/-- The frames lost in an overrun. -/
def overrun (t : Log) : List RxMailBox := t.flatMap overrunBy

/-- The frame read from the output mailbox. -/
def unloadedBy (e : Op × State) : List RxMailBox :=
  match e.1 with
  | .read .rxFifo => [e.2.can.output]
  | _ => []

/-- The frames that `Can_FrameReceived` has read. -/
def unloaded (t : Log) : List RxMailBox := t.flatMap unloadedBy

@[simp] theorem unloaded_concat (t : Log) (e : Op × State) :
    unloaded (t ++ [e]) = unloaded t ++ unloadedBy e := by
  simp [unloaded]

/-- The message of a frame: its type byte has neither the flag of an acknowledgement nor that
of a bus error. -/
def Op.frameMessage : Op → List (List UInt8)
  | addMessage (code :: rest) =>
    if code &&& (canifAckFlag ||| canifBusError) = 0 then [code :: rest] else []
  | _ => []

/-- The messages of frames offered to `CanIf_AddMessage`. -/
def frameMessages (t : Log) : List (List UInt8) := t.flatMap fun e ↦ e.1.frameMessage

@[simp] theorem frameMessages_concat (t : Log) (e : Op × State) :
    frameMessages (t ++ [e]) = frameMessages t ++ e.1.frameMessage := by
  simp [frameMessages]

/-- Frames through the FIFO, in order. -/
def fifoFlow : Flow State Op RxMailBox := ⟨arrivedBy, unloadedBy⟩

/-- Frames through the FIFO, with those that are overwritten. -/
def overrunFlow : Flow State Op RxMailBox := ⟨arrivedBy, fun e ↦ unloadedBy e ++ overrunBy e⟩

/-- The message is put together from the frame, over whatever the stack holds. -/
def RxMailBox.TurnedInto (rx : RxMailBox) (msg : List UInt8) : Prop :=
  ∃ stack, receivedMsg stack rx = msg

/-! ### The messages -/

theorem typeCode_and (w : BitVec 32) :
    byteAt (w &&& canIdtypeExtRtr) 0 &&& (canifAckFlag ||| canifBusError) = 0 := by
  apply UInt8.toBitVec_inj.mp
  apply BitVec.eq_of_getLsbD_eq
  intro i hi
  simp only [byteAt, canIdtypeExtRtr, canifAckFlag, canifBusError, UInt8.toBitVec_and,
    BitVec.getLsbD_and, BitVec.getLsbD_extractLsb']
  interval_cases i <;> simp

/-- What is put together from a frame is the message of a frame. -/
theorem frameMessage_received (stack : Nat → UInt8) (rx : RxMailBox) :
    (Op.addMessage (receivedMsg stack rx)).frameMessage = [receivedMsg stack rx] := by
  obtain ⟨rest, hr⟩ := receivedMsg_cons rx stack
  rw [hr]
  exact if_pos (typeCode_and _)

/-- An acknowledgement is not. -/
theorem frameMessage_ack (b : UInt8) : (Op.addMessage [canifAckFlag ||| b]).frameMessage = [] := by
  apply if_neg
  intro h
  have hb := congrArg (fun b : UInt8 ↦ b.toBitVec.getLsbD 7) h
  simp [canifAckFlag, canifBusError] at hb

/-- Neither is the report of an error. -/
theorem frameMessage_busError (esr : UInt8) :
    (Op.addMessage [canifBusError, esr]).frameMessage = [] := by
  have h : ¬ canifBusError &&& (canifAckFlag ||| canifBusError) = 0 := by decide
  rw [Op.frameMessage, if_neg h]

/-! ### The FIFO -/

/-- The frames that arrived are read, held or overwritten, and no other frames are; those read
and held are in the order of arrival. -/
def Arrivals (held : State → List RxMailBox) (s : State) (t : Log) : Prop :=
  fifoFlow.Balance (fun a b ↦ b.Sublist a) [] held s t ∧ overrunFlow.Balance List.Perm [] held s t

/-- The FIFO has room for three frames; it holds what arrived and was not read or overwritten; and
each frame read was turned into the message offered. `held` is what of the FIFO is still to be
read. -/
def Passed (held : State → List RxMailBox) (s : State) (t : Log) : Prop :=
  s.can.fifo.length ≤ 3 ∧ Arrivals held s t ∧
    List.Forall₂ RxMailBox.TurnedInto (unloaded t) (frameMessages t)

/-- Between handlers and between the rounds of the loop. -/
def FifoLog (s : State) (t : Log) : Prop := Passed (fun s ↦ s.can.fifo) s t

/-- Operations that concern the FIFO or offer the message of a frame. -/
def Op.unloads : Op → Bool
  | event _ | resetCan | releaseFifo | read .rxFifo => true
  | addMessage msg => !(addMessage msg).frameMessage.isEmpty
  | _ => false

theorem Op.unloads_spec {o : Op} (h : o.unloads = false) (s : State) :
    (s.exec o).can.fifo = s.can.fifo ∧ arrivedBy (o, s) = [] ∧ unloadedBy (o, s) = [] ∧
      overrunBy (o, s) = [] ∧ o.frameMessage = [] := by
  cases o with
  | read r =>
    cases r with
    | rxFifo => contradiction
    | _ => exact ⟨rfl, rfl, rfl, rfl, rfl⟩
  | deliver bytes => exact ⟨congrArg Can.fifo (s.exec_delivered bytes).1, rfl, rfl, rfl, rfl⟩
  | event | resetCan | releaseFifo => contradiction
  | addMessage msg => exact ⟨rfl, rfl, rfl, rfl, by simpa [Op.unloads] using h⟩
  | _ => exact ⟨rfl, rfl, rfl, rfl, rfl⟩

theorem arrivals_nil {held : State → List RxMailBox} {s : State} (h : held s = []) :
    Arrivals held s [] :=
  ⟨Flow.balance_nil law_sublist h, Flow.balance_nil law_perm h⟩

theorem Arrivals.same {held held' : State → List RxMailBox} {s s' : State} {t : Log} {o : Op}
    (h : Arrivals held s t) (ha : arrivedBy (o, s) = []) (hu : unloadedBy (o, s) = [])
    (ho : overrunBy (o, s) = []) (hh : held' s' = held s) :
    Arrivals held' s' (t ++ [(o, s)]) := by
  refine ⟨h.1.same law_sublist ha hu hh, h.2.same law_perm ha ?_ hh⟩
  change unloadedBy (o, s) ++ overrunBy (o, s) = []
  rw [hu, ho, List.append_nil]

theorem Passed.keep {held : State → List RxMailBox} {o : Op} (ho : o.unloads = false)
    {s : State} {t : Log} (h : Passed held s t) (hh : held (s.exec o) = held s) :
    Passed held (s.exec o) (t ++ [(o, s)]) := by
  obtain ⟨hf, ha, hu, hl, hm⟩ := Op.unloads_spec ho s
  refine ⟨by rw [hf]; exact h.1, h.2.1.same ha hu hl hh, ?_⟩
  rw [unloaded_concat, frameMessages_concat, hu, hm, List.append_nil, List.append_nil]
  exact h.2.2

theorem FifoLog.keep {o : Op} (ho : o.unloads = false) : OpKeeps device FifoLog o :=
  fun s _ h ↦ Passed.keep ho h (Op.unloads_spec ho s).1

/-- The output mailbox is read: its frame is no longer among those to be read. -/
theorem Arrivals.unload {s : State} {t : Log} (h : Arrivals (fun s ↦ s.can.fifo) s t)
    (hf : s.can.fifo = [s.can.output] ++ s.can.fifo.tail) :
    Arrivals (fun s ↦ s.can.fifo.tail) s (t ++ [(.read .rxFifo, s)]) := by
  refine ⟨h.1.step law_sublist ?_, h.2.step law_perm ?_⟩
  · change ([s.can.output] ++ s.can.fifo.tail).Sublist (s.can.fifo ++ [])
    rw [List.append_nil, ← hf]
  · change (s.can.fifo ++ []).Perm ([s.can.output] ++ [] ++ s.can.fifo.tail)
    rw [List.append_nil, List.append_nil, ← hf]

/-- Frames are stored behind others, of which the last may be overwritten. -/
def Pushed (e : Op × State) (l l' : List RxMailBox) : Prop :=
  ∃ kept, l = kept ++ overrunBy e ∧ l' = kept ++ arrivedBy e

/-- An event stores at most one frame. -/
theorem fifo_event (s : State) (e : Event) :
    Pushed (.event e, s) s.can.fifo (s.exec (.event e)).can.fifo := by
  cases e with
  | rx frame =>
    simp only [Pushed, overrunBy, arrivedBy, State.exec, State.event, Can.receive]
    by_cases h : s.can.fifo.length < 3
    · rw [if_pos h, if_pos h]
      exact ⟨s.can.fifo, (List.append_nil _).symm, rfl⟩
    · have hne : s.can.fifo ≠ [] := by
        intro hn
        rw [hn] at h
        exact h (by decide)
      rw [if_neg h, if_neg h, List.getLast?_eq_some_getLast hne]
      exact ⟨s.can.fifo.dropLast, (List.dropLast_append_getLast hne).symm, rfl⟩
  | _ => exact ⟨s.can.fifo, (List.append_nil _).symm, (List.append_nil _).symm⟩

/-- The FIFO does not get longer than three, nor shorter. -/
theorem length_fifo_event {s : State} (h : s.can.fifo.length ≤ 3) (e : Event) :
    (s.exec (.event e)).can.fifo.length ≤ 3 ∧
      s.can.fifo.length ≤ (s.exec (.event e)).can.fifo.length := by
  cases e with
  | rx frame =>
    change (s.can.receive frame).fifo.length ≤ 3 ∧ _ ≤ (s.can.receive frame).fifo.length
    unfold Can.receive
    split
    · simp only [List.length_append, List.length_singleton]
      omega
    · simp only [List.length_append, List.length_dropLast, List.length_singleton]
      omega
  | _ => exact ⟨h, Nat.le_refl _⟩

theorem Arrivals.event {held : State → List RxMailBox} {s : State} {t : Log}
    (h : Arrivals held s t) {e : Event}
    (hh : Pushed (.event e, s) (held s) (held (s.exec (.event e)))) :
    Arrivals held (s.exec (.event e)) (t ++ [(.event e, s)]) := by
  obtain ⟨kept, ho, ha⟩ := hh
  refine ⟨h.1.step law_sublist ?_, h.2.step law_perm ?_⟩
  · change ([] ++ held (s.exec (.event e))).Sublist (held s ++ arrivedBy (.event e, s))
    rw [ho, ha, List.nil_append]
    exact (List.sublist_append_left _ _).append (.refl _)
  · change (held s ++ arrivedBy (.event e, s)).Perm
      ([] ++ overrunBy (.event e, s) ++ held (s.exec (.event e)))
    rw [ho, ha, List.nil_append, ← List.append_assoc]
    exact List.perm_append_comm.append_right _

theorem Passed.event {held : State → List RxMailBox} {s : State} {t : Log} (h : Passed held s t)
    {e : Event} (hh : Pushed (.event e, s) (held s) (held (s.exec (.event e)))) :
    Passed held (s.exec (.event e)) (t ++ [(.event e, s)]) := by
  refine ⟨(length_fifo_event h.1 e).1, h.2.1.event hh, ?_⟩
  have hu : unloadedBy (.event e, s) = [] := rfl
  rw [unloaded_concat, frameMessages_concat, hu, List.append_nil]
  exact (List.append_nil (frameMessages t)).symm ▸ h.2.2

theorem fifoLog_stable : Stable device FifoLog := fun e s _ h ↦ h.event (fifo_event s e)

/-- Events leave the output mailbox as it is: of a full FIFO another one is overwritten. -/
private theorem output_event {s : State} {rx : RxMailBox} (h : s.can.fifo.head? = some rx)
    (e : Event) : (s.exec (.event e)).can.fifo.head? = some rx ∧
      Pushed (.event e, s) s.can.fifo.tail (s.exec (.event e)).can.fifo.tail := by
  obtain ⟨kept, ho, ha⟩ := fifo_event s e
  rw [ha]
  cases kept with
  | cons rx' kept =>
    rw [ho] at h ⊢
    exact ⟨h, kept, rfl, rfl⟩
  | nil =>
    -- The FIFO would be one frame long and full.
    exfalso
    rw [List.nil_append] at ho
    cases e with
    | rx frame =>
      by_cases hl : s.can.fifo.length < 3
      · rw [ho.trans (if_pos hl)] at h
        contradiction
      · rw [ho.trans (if_neg hl)] at hl
        cases hg : s.can.fifo.getLast? <;> simp [hg] at hl
    | _ =>
      rw [ho] at h
      contradiction

/-! ### One round -/

/-- The output mailbox has been read and its message is still to be offered. -/
private def Holding (rx : RxMailBox) (s : State) (t : Log) : Prop :=
  s.can.fifo.head? = some rx ∧ s.can.fifo.length ≤ 3 ∧
    Arrivals (fun s ↦ s.can.fifo.tail) s t ∧
    ∃ rxs, unloaded t = rxs ++ [rx] ∧ List.Forall₂ RxMailBox.TurnedInto rxs (frameMessages t)

private theorem holding_stable (rx : RxMailBox) : Stable device (Holding rx) := by
  rintro e s t ⟨hh, hl, hb, rxs, hu, hm⟩
  obtain ⟨hh', ht⟩ := output_event hh e
  refine ⟨hh', (length_fifo_event hl e).1, hb.event ht, rxs, ?_, ?_⟩
  · rw [unloaded_concat]
    exact (List.append_nil _).trans hu
  · rw [frameMessages_concat]
    exact (List.append_nil (frameMessages t)).symm ▸ hm

/-- The message has been offered and the output mailbox is still to be released. -/
private def Offering (s : State) (t : Log) : Prop :=
  (∃ rx, s.can.fifo.head? = some rx) ∧ Passed (fun s ↦ s.can.fifo.tail) s t

private theorem offering_stable : Stable device Offering := fun e _ _ ⟨⟨rx, h⟩, hp⟩ ↦
  ⟨⟨rx, (output_event h e).1⟩, hp.event (output_event h e).2⟩

private theorem fifoLog_canFrameReceived (stack : Nat → UInt8) :
    Keeps FifoLog (canFrameReceived stack) := by
  have nonempty : Stable device fun s t ↦ FifoLog s t ∧ ∃ rx, s.can.fifo.head? = some rx :=
    fun e s t ⟨h, rx, hrx⟩ ↦ ⟨fifoLog_stable e s t h, rx, (output_event hrx e).1⟩
  apply keeps_bind keeps_scheduled
  intro n
  induction n + 4 with
  | zero => exact keeps_pure ()
  | succ n ih =>
    refine Triple.bind (R := fun more s t ↦ FifoLog s t ∧
      (more = true → ∃ rx, s.can.fifo.head? = some rx)) (Triple.access _ fifoLog_stable ?_)
      fun more ↦ Triple.ite (fun hmore ↦ ?_) fun _ ↦ Triple.pure () fun _ _ h ↦ h.1
    · intro s t h
      refine ⟨FifoLog.keep (o := .read .rfr) rfl s t h, fun hm ↦ ?_⟩
      cases hf : s.can.fifo with
      | nil => simp [hf] at hm
      | cons rx l => exact ⟨rx, congrArg List.head? hf⟩
    · refine Triple.bind (R := Holding)
        ((Triple.access _ nonempty ?_).pre fun _ _ h ↦ ⟨h.1, h.2 hmore⟩) fun rx ↦ ?_
      · rintro s t ⟨h, rx, hrx⟩
        have ho : s.can.output = rx := by
          rw [Can.output, List.headD_eq_head?_getD, hrx]
          rfl
        rw [ho]
        -- What was read is the first frame of the FIFO.
        have hf : s.can.fifo = [s.can.output] ++ s.can.fifo.tail := by
          rw [ho]
          exact (List.cons_head?_tail hrx).symm
        refine ⟨hrx, h.1, h.2.1.unload hf, unloaded t, ?_, ?_⟩
        · rw [unloaded_concat]
          exact congrArg (fun x ↦ unloaded t ++ [x]) ho
        · rw [frameMessages_concat]
          exact (List.append_nil (frameMessages t)).symm ▸ h.2.2
      · refine Triple.bind (R := fun _ ↦ Offering) (Triple.access _ (holding_stable rx) ?_)
          fun _ ↦ Triple.bind (R := fun _ ↦ FifoLog) (Triple.access _ offering_stable ?_)
            fun _ ↦ ih
        · rintro s t ⟨hh, hl, hb, rxs, hu, hm⟩
          refine ⟨⟨rx, hh⟩, hl, hb.same rfl rfl rfl rfl, ?_⟩
          rw [unloaded_concat, frameMessages_concat, hu, frameMessage_received]
          exact (List.append_nil (rxs ++ [rx])).symm ▸ List.rel_append hm (.cons ⟨stack, rfl⟩ .nil)
        · rintro s t ⟨⟨rx', hrx⟩, hl, hb, hm⟩
          refine ⟨?_, hb.same rfl rfl rfl rfl, ?_⟩
          · change s.can.fifo.tail.length ≤ 3
            rw [List.length_tail]
            omega
          · rw [unloaded_concat, frameMessages_concat]
            simpa [unloadedBy, Op.frameMessage] using hm

/-! ### The other handlers -/

private theorem fifoLog_scanMailbox (m : Fin 3) : Keeps FifoLog (scanMailbox m) := by
  have ack (b : UInt8) : (Op.addMessage [canifAckFlag ||| b]).unloads = false := by
    rw [Op.unloads, frameMessage_ack]
    rfl
  refine keeps_bind (keeps_access fifoLog_stable (FifoLog.keep rfl) _) fun ok ↦ keeps_ite ?_ ?_
  · apply keeps_bind (keeps_access fifoLog_stable (FifoLog.keep rfl) _)
    intro tir
    apply keeps_bind (keeps_write fifoLog_stable (FifoLog.keep (ack _)))
    intro _
    exact keeps_bind (keeps_write fifoLog_stable (FifoLog.keep rfl)) fun _ ↦ keeps_pure true
  · apply keeps_bind (keeps_access fifoLog_stable (FifoLog.keep rfl) _)
    intro rqcp
    exact keeps_ite (keeps_bind (keeps_write fifoLog_stable (FifoLog.keep rfl)) fun _ ↦
      keeps_pure false) (keeps_pure false)

private theorem fifoLog_receive : Keeps FifoLog canIfReceiveOutData :=
  keeps_canIfReceiveOutData fifoLog_stable (FifoLog.keep rfl) fun _ ↦ FifoLog.keep rfl

private theorem fifoLog_canPostFrames : Keeps FifoLog canPostFrames :=
  keeps_canPostFrames (keeps_postOne fifoLog_stable (FifoLog.keep rfl)
    (fun _ s t h _ ↦ FifoLog.keep rfl s t h) fun _ ↦ FifoLog.keep rfl)

private theorem fifoLog_canBusError : Keeps FifoLog canBusError := by
  refine keeps_canBusError_reports fifoLog_stable (FifoLog.keep rfl) (fun esr _ ↦ FifoLog.keep ?_)
    (FifoLog.keep rfl) (fun _ ↦ FifoLog.keep rfl) (FifoLog.keep rfl)
  rw [Op.unloads, frameMessage_busError]
  rfl

private theorem fifoLog_program (a : Action) : Keeps FifoLog a.program := by
  have reset (s : State) (t : Log) (_ : FifoLog s t) : FifoLog (s.exec .resetCan) [] :=
    ⟨Nat.zero_le 3, arrivals_nil rfl, .nil⟩
  cases a with
  | canIfOpen bitrate init =>
    exact keeps_canIfOpen fifoLog_stable reset (FifoLog.keep rfl) (FifoLog.keep rfl)
      fifoLog_receive bitrate init
  | canClose dropped => exact keeps_canClose fifoLog_stable reset (FifoLog.keep rfl) dropped
  | _ =>
    exact keeps_program fifoLog_stable (FifoLog.keep rfl) (FifoLog.keep rfl) (FifoLog.keep rfl)
      (FifoLog.keep rfl) fifoLog_canFrameReceived
      (keeps_outCompletion (fun _ ↦ FifoLog.keep rfl) (fun _ ↦ FifoLog.keep rfl)
        (fun _ _ ↦ FifoLog.keep rfl) (FifoLog.keep rfl) (fun _ _ ↦ FifoLog.keep rfl)
        fifoLog_canPostFrames fifoLog_receive)
      (keeps_canFrameSent fifoLog_scanMailbox fifoLog_canPostFrames fifoLog_receive)
      fifoLog_canBusError _ rfl

/-- The FIFO balances in every state of every run. -/
theorem fifoLog_run (mailboxes : Fin 3 → TxMailBox) (txq : Nat → TxMailBox)
    (inb outb : Nat → UInt8) (steps : List Step) :
    FifoLog (run (boot mailboxes txq inb outb) steps).state
      (run (boot mailboxes txq inb outb) steps).trace :=
  keeps_anyRun fifoLog_program (c := boot mailboxes txq inb outb)
    ⟨Nat.zero_le 3, arrivals_nil rfl, .nil⟩ steps

/-- The frames read are frames that arrived, in their order. -/
theorem FifoLog.sublist {s : State} {t : Log} (h : FifoLog s t) :
    (unloaded t).Sublist (arrived t) :=
  (List.sublist_append_left _ _).trans h.2.1.1

theorem FifoLog.perm {s : State} {t : Log} (h : FifoLog s t) :
    (arrived t).Perm (unloaded t ++ s.can.fifo ++ overrun t) := by
  apply h.2.1.2.trans
  apply ((List.flatMap_append_perm _ unloadedBy overrunBy).symm.append_right _).trans
  rw [List.append_assoc, List.append_assoc]
  exact List.perm_append_comm.append_left _

/-- In every run, and since the peripheral was last reset: each frame that arrived has been read,
is still in the FIFO, or was the last one of a full FIFO when the next one overwrote it; those read
and those in the FIFO are in the order of arrival; and each frame read has been turned into one
message of those offered, in the same order. -/
theorem arrivals_offered (mailboxes : Fin 3 → TxMailBox) (txq : Nat → TxMailBox)
    (inb outb : Nat → UInt8) (steps : List Step) :
    let c := run (boot mailboxes txq inb outb) steps
    (arrived c.trace).Perm (unloaded c.trace ++ c.state.can.fifo ++ overrun c.trace) ∧
      (unloaded c.trace ++ c.state.can.fifo).Sublist (arrived c.trace) ∧
      List.Forall₂ RxMailBox.TurnedInto (unloaded c.trace) (frameMessages c.trace) := by
  intro c
  have h : FifoLog c.state c.trace := fifoLog_run mailboxes txq inb outb steps
  exact ⟨h.perm, h.2.1.1, h.2.2⟩

/-! ### The loop empties the FIFO -/

/-- How many rounds are enough: those for the frames that wait, or, while more may arrive, one
for each access that lets them in, and those for a full FIFO. -/
private def owed (c : Config) : Nat :=
  if c.script = [] then c.state.can.fifo.length + 1 else c.script.length + 4

/-- The environment acts: nothing changes, or its script gets shorter. It takes nothing out of
the FIFO. -/
private theorem interfere_cases (c : Config) (h : c.state.can.fifo.length ≤ 3) :
    (interfere device c).2.state.can.fifo.length ≤ 3 ∧
      c.state.can.fifo.length ≤ (interfere device c).2.state.can.fifo.length ∧
      (c.script = [] ∧ (interfere device c).2 = c ∨
        c.script.length = (interfere device c).2.script.length + 1) := by
  have events (es : List Event) (c : Config) (h : c.state.can.fifo.length ≤ 3) :
      (es.foldl (fun c e ↦ c.exec device (device.env e)) c).state.can.fifo.length ≤ 3 ∧
        c.state.can.fifo.length ≤
          (es.foldl (fun c e ↦ c.exec device (device.env e)) c).state.can.fifo.length ∧
        (es.foldl (fun c e ↦ c.exec device (device.env e)) c).script = c.script := by
    induction es generalizing c with
    | nil => exact ⟨h, Nat.le_refl _, rfl⟩
    | cons e es ih =>
      obtain ⟨hlen, hgrow⟩ := length_fifo_event h e
      obtain ⟨h3, hle, hs⟩ := ih (c.exec device (device.env e)) hlen
      exact ⟨h3, hgrow.trans hle, hs⟩
  unfold interfere
  split
  · next hs => exact ⟨h, Nat.le_refl _, .inl ⟨hs, rfl⟩⟩
  · next es rest hs =>
    obtain ⟨h3, hle, hr⟩ := events es { c with script := rest } h
    refine ⟨h3, hle, .inr ?_⟩
    change c.script.length = (es.foldl _ { c with script := rest }).script.length + 1
    rw [hr, hs]
    rfl

/-- An access that takes `k` frames out of the FIFO, one at most, saves `k` rounds. -/
private theorem owed_access {o : Op} {k : Nat} (hk : k ≤ 1)
    (ho : ∀ s : State, (s.exec o).can.fifo.length = s.can.fifo.length - k) {α : Type}
    (f : State → α) (c : Config) (h : c.state.can.fifo.length ≤ 3)
    (hc : k ≤ c.state.can.fifo.length) :
    (access device o f c).2.state.can.fifo.length ≤ 3 ∧
      c.state.can.fifo.length - k ≤ (access device o f c).2.state.can.fifo.length ∧
      owed (access device o f c).2 + k ≤ owed c := by
  obtain ⟨h3, hle, hcases⟩ := interfere_cases c h
  have hfifo : (access device o f c).2.state.can.fifo.length =
      (interfere device c).2.state.can.fifo.length - k := ho _
  have hscript : (access device o f c).2.script = (interfere device c).2.script := rfl
  refine ⟨by omega, by omega, ?_⟩
  unfold owed
  rw [hfifo, hscript]
  rcases hcases with ⟨hs, he⟩ | hs
  · rw [he, if_pos hs, if_pos hs]
    omega
  · rw [if_neg (show c.script ≠ [] by intro hn; rw [hn] at hs; contradiction)]
    split <;> omega

private theorem bind_apply {α β : Type} (x : Firmware α) (f : α → Firmware β) (c : Config) :
    (x >>= f) c = f (x c).1 (x c).2 := rfl

/-- With a round for each frame that is owed one, the loop ends because the FIFO is empty. -/
private theorem receiveLoop_drains (stack : Nat → UInt8) (fuel : Nat) (c : Config)
    (h : c.state.can.fifo.length ≤ 3) (hf : owed c ≤ fuel) :
    (receiveLoop stack fuel c).2.state.can.fifo = [] := by
  have reads (o : Op) (ho : ∀ s : State, (s.exec o).can.fifo = s.can.fifo) (s : State) :
      (s.exec o).can.fifo.length = s.can.fifo.length - 0 := by rw [ho, Nat.sub_zero]
  induction fuel generalizing c with
  | zero =>
    unfold owed at hf
    split at hf <;> omega
  | succ fuel ih =>
    obtain ⟨h1, -, o1⟩ := owed_access (Nat.zero_le 1) (reads (.read .rfr) fun _ ↦ rfl)
      (fun s ↦ !s.can.fifo.isEmpty) c h (Nat.zero_le _)
    rw [receiveLoop, bind_apply]
    have hval : (access device (.read .rfr) (fun s ↦ !s.can.fifo.isEmpty) c).1 =
        !(access device (.read .rfr) (fun s ↦ !s.can.fifo.isEmpty) c).2.state.can.fifo.isEmpty :=
      rfl
    rw [hval]
    generalize (access device (.read .rfr) (fun s ↦ !s.can.fifo.isEmpty) c).2 = c1 at h1 o1 ⊢
    by_cases hempty : c1.state.can.fifo = []
    · rw [hempty]
      exact hempty
    · have hpos := List.length_pos_iff.mpr hempty
      rw [if_pos (by simpa using hempty), bind_apply, bind_apply, bind_apply]
      obtain ⟨h2, l2, o2⟩ := owed_access (Nat.zero_le 1) (reads (.read .rxFifo) fun _ ↦ rfl)
        (fun s ↦ s.can.output) c1 h1 (Nat.zero_le _)
      generalize (access device (.read .rxFifo) (fun s ↦ s.can.output) c1) = r2 at h2 l2 o2 ⊢
      obtain ⟨h3, l3, o3⟩ := owed_access (Nat.zero_le 1)
        (reads (.addMessage (receivedMsg stack r2.1)) fun _ ↦ rfl) (fun _ ↦ ()) r2.2 h2
        (Nat.zero_le _)
      obtain ⟨h4, -, o4⟩ := owed_access (o := .releaseFifo) (Nat.le_refl 1)
        (fun s ↦ List.length_tail) (fun _ ↦ ()) _ h3 (by omega)
      have hround : owed (access device .releaseFifo (fun _ ↦ ())
          (access device (.addMessage (receivedMsg stack r2.1)) (fun _ ↦ ()) r2.2).2).2 ≤ fuel := by
        omega
      exact ih _ h4 hround

/-- Whatever arrives meanwhile, `Can_FrameReceived` leaves the FIFO empty, and every frame that
arrived since the peripheral was last reset, apart from those overwritten in a full FIFO, has been
read and turned into one message of those offered, in the order of arrival. -/
theorem canFrameReceived_drains (mailboxes : Fin 3 → TxMailBox) (txq : Nat → TxMailBox)
    (inb outb : Nat → UInt8) (steps : List Step) (stack : Nat → UInt8)
    (script : List (List Event)) :
    let c := run (boot mailboxes txq inb outb) (steps ++ [⟨.frameReceived stack, script⟩])
    c.state.can.fifo = [] ∧ (arrived c.trace).Perm (unloaded c.trace ++ overrun c.trace) ∧
      (unloaded c.trace).Sublist (arrived c.trace) ∧
      List.Forall₂ RxMailBox.TurnedInto (unloaded c.trace) (frameMessages c.trace) := by
  intro c
  have hempty : c.state.can.fifo = [] := by
    have hfull := (fifoLog_run mailboxes txq inb outb steps).1
    rw [show c = _ from run_append _ _ _]
    refine receiveLoop_drains stack (script.length + 4)
      { run (boot mailboxes txq inb outb) steps with script } hfull ?_
    unfold owed
    split
    · change (run (boot mailboxes txq inb outb) steps).state.can.fifo.length + 1 ≤ _
      omega
    · exact Nat.le_refl _
  have h : FifoLog c.state c.trace := fifoLog_run mailboxes txq inb outb _
  have hperm := h.perm
  rw [hempty, List.append_nil] at hperm
  exact ⟨hempty, hperm, h.sublist, h.2.2⟩

end CanDybug
