import CanDybug.Base.Program
import CanDybug.Device.Can
import CanDybug.Frame.Request
import CanDybug.In.Lifetime

/-!
# State of the device and its atomic operations

The firmware's static data, the peripheral, and what the USB library has outstanding.
Operations are the firmware's register accesses, its library calls and its steps on
buffers and queues; events are the operations of the bus and of the host.
-/

namespace CanDybug

open Base

/-- `CANIF_OUT_DATA_SIZE`, `can_if.h:35`. -/
def canifOutDataSize : Nat := 128

/-- Capacity of `CanTxQ`, `can_if.c:54`. -/
def canTxQCapacity : Nat := canifOutDataSize / 2

/-- `CanIf_OUT`, `can_if.c:65–68`: memory from the buffer's first byte on, and the offset. -/
structure CanIfOut where
  buffer : Nat → UInt8
  offset : Nat

/-- State of the device. `armed` is the region of the outstanding OUT transfer, `ready`
whether `USBD_CDC_Transmit` would accept a transfer if none is in flight. -/
structure State where
  can : Can
  canTxQ : Queue TxMailBox
  canIfIn : InPipe
  ready : Bool
  canIfOut : CanIfOut
  armed : Option Region

/-- What the bus, the host and the USB library do on their own. -/
inductive Event where
  /-- The frame of a mailbox was transmitted. -/
  | txOk (m : Fin 3)
  /-- The abort of a mailbox took effect. -/
  | txAbort (m : Fin 3)
  /-- The peripheral will use this mailbox next if it is empty. -/
  | next (m : Fin 3)
  /-- A frame arrived. -/
  | rx (frame : RxMailBox)
  | rxFlags (b : Bool)
  /-- The error status changed without an error event. -/
  | esr (v : UInt8)
  /-- An error event: the error status changed and `ERRI` was set. -/
  | error (v : UInt8)
  | ready (b : Bool)
  /-- The host fetched bytes of the IN transfer in flight. -/
  | fetch (n : Nat)
  deriving DecidableEq

/-- Registers that the firmware reads. -/
inductive Register where
  | tsr
  | txok (m : Fin 3)
  | rqcp (m : Fin 3)
  | tir (m : Fin 3)
  | esr
  | rfr
  | rxFifo
  deriving DecidableEq

/-- Atomic operations. -/
inductive Op where
  | event (e : Event)
  | read (r : Register)
  /-- `RCC_vReset` or `CAN_vDeinit`. -/
  | resetCan
  /-- The end of `Can_Start`: interrupts enabled, transmit queue reset. -/
  | canStart
  /-- The end of `CanIf_Open`: all buffers emptied. -/
  | emptyBuffers
  /-- The USB library gives up its transfers. -/
  | dropTransfers
  /-- The OUT transfer completes with these bytes. -/
  | deliver (bytes : List UInt8)
  | sentinel (i : Nat)
  | handleRequest (msg length : Nat)
  | stop
  /-- Move a fragment to the beginning. -/
  | moveFragment (pbuf length : Nat)
  /-- The condition in `CanIf_ReceiveOutData`. -/
  | receiveOutData
  /-- `USBD_CDC_Receive`. -/
  | usbReceive (g : Region)
  /-- Copy a frame from the queue to a mailbox. -/
  | postFrame (m : Fin 3)
  | setTXRQ (m : Fin 3)
  | clearRQCP (m : Fin 3)
  | setABRQ (m : Fin 3)
  | clearERRI
  | releaseFifo
  | resetTxQ
  /-- `CanIf_AddMessage`. -/
  | addMessage (msg : List UInt8)
  /-- Completion of the IN transfer and `CanIf_EpInComplete`. -/
  | epInComplete
  deriving DecidableEq

namespace State

/-- Change the transmitter. -/
def onTx (s : State) (f : Transmitter → Transmitter) : State :=
  { s with can := { s.can with tx := f s.can.tx } }

/-- An event. Of the mailboxes' outcomes only those happen that their requests allow. -/
def event (s : State) : Event → State
  | .txOk m => s.onTx fun u ↦ u.complete m true
  | .txAbort m => s.onTx fun u ↦ u.completeAbort m
  | .next m => s.onTx fun u ↦ { u with next := m }
  | .rx frame => { s with can := s.can.receive frame }
  | .rxFlags b => { s with can := { s.can with rxFlags := b } }
  | .esr v => { s with can := { s.can with esr := v } }
  | .error v => { s with can := { s.can with esr := v, erri := true } }
  | .ready b => { s with ready := b }
  | .fetch n => { s with canIfIn := s.canIfIn.step (.fetch n) }

/-- The condition in `CanIf_ReceiveOutData`, `can_if.c:169–170`. -/
def accepting (s : State) : Bool :=
  decide (s.canTxQ.space ≥ canifOutDataSize / 4) && !s.can.blocked

/-- Effect of an operation. -/
def exec (s : State) : Op → State
  | .event e => s.event e
  | .read _ => s
  | .resetCan => { s with can := s.can.reset }
  | .canStart => { s with
      can := { s.can with ier := canIerEnabled }
      canTxQ := s.canTxQ.reset }
  | .emptyBuffers => { s with
      canIfIn := s.canIfIn.step .canIfOpen
      canIfOut := { s.canIfOut with offset := 0 } }
  | .dropTransfers => { s with armed := none, canIfIn := s.canIfIn.step .drop }
  | .deliver bytes =>
    match s.armed with
    | some g => { s with
        armed := none
        canIfOut := { s.canIfOut with buffer := store s.canIfOut.buffer g.start bytes } }
    | none => s
  | .sentinel i => { s with
      canIfOut := { s.canIfOut with buffer := Function.update s.canIfOut.buffer i 1 } }
  | .handleRequest msg length => { s with
      canTxQ := (canHandleRequest (fun i ↦ s.canIfOut.buffer (msg + i)) length s.canTxQ).2 }
  | .stop => { s with canIfOut := { s.canIfOut with offset := 0 } }
  | .moveFragment pbuf length => { s with
      canIfOut := { buffer := copy s.canIfOut.buffer 0 pbuf length, offset := length } }
  | .receiveOutData => s
  | .usbReceive g => { s with armed := s.armed.or (some g) }
  | .postFrame m => { s with
      can := { s.can with tx := s.can.tx.write m s.canTxQ.get.1 }
      canTxQ := s.canTxQ.get.2 }
  | .setTXRQ m => s.onTx fun u ↦ u.request m
  | .clearRQCP m => s.onTx fun u ↦ u.clearRqcp m
  | .setABRQ m => s.onTx fun u ↦ u.abort m
  | .clearERRI => { s with can := { s.can with erri := false } }
  | .releaseFifo => { s with can := s.can.release }
  | .resetTxQ => { s with canTxQ := s.canTxQ.reset }
  | .addMessage msg => { s with canIfIn := s.canIfIn.step (.addMessage msg s.ready) }
  | .epInComplete => { s with canIfIn := s.canIfIn.step (.epInComplete s.ready) }

/-- Events concern neither the transmit queue, nor the OUT buffer, nor the OUT transfer. -/
theorem exec_event (s : State) (e : Event) :
    (s.exec (.event e)).canTxQ = s.canTxQ ∧ (s.exec (.event e)).canIfOut = s.canIfOut ∧
      (s.exec (.event e)).armed = s.armed := by
  cases e <;> exact ⟨rfl, rfl, rfl⟩

/-- A delivered transfer concerns neither the peripheral nor the transmit queue. -/
theorem exec_delivered (s : State) (bytes : List UInt8) :
    (s.exec (.deliver bytes)).can = s.can ∧ (s.exec (.deliver bytes)).canTxQ = s.canTxQ := by
  unfold exec
  cases s.armed <;> exact ⟨rfl, rfl⟩

/-- What an event does to the transmitter: a request succeeds, or one that is being aborted
ends, or neither. -/
inductive TxEvent (u : Transmitter) : Event → Transmitter → Prop
  | idle (e : Event) (n : Fin 3) (h : ∀ m, e = .txOk m → u.pending m = false) :
    TxEvent u e { u with next := n }
  | sent (m : Fin 3) (h : u.pending m = true) : TxEvent u (.txOk m) (u.complete m true)
  | aborted (r : Request) (h : r ∈ u.requests) (ha : r.aborting = true) :
    TxEvent u (.txAbort r.mailbox) (u.complete r.mailbox false)

theorem txEvent (s : State) (e : Event) : TxEvent s.can.tx e (s.exec (.event e)).can.tx := by
  cases e with
  | txOk m =>
    change TxEvent _ _ (s.can.tx.complete m true)
    by_cases h : s.can.tx.pending m = true
    · exact .sent m h
    · rw [Transmitter.complete, dif_neg h]
      refine .idle _ s.can.tx.next fun m' hm ↦ ?_
      cases hm
      simpa using h
  | txAbort m =>
    change TxEvent _ _ (s.can.tx.completeAbort m)
    unfold Transmitter.completeAbort
    split
    · next h =>
      obtain ⟨r, hr, ha⟩ := List.any_eq_true.mp h
      rw [Bool.and_eq_true, beq_iff_eq] at ha
      obtain ⟨rfl, ha⟩ := ha
      exact .aborted r hr ha
    · exact .idle _ s.can.tx.next fun _ h ↦ by cases h
  | next m => exact .idle _ m fun _ h ↦ by cases h
  | rx frame =>
    have he : (s.can.receive frame).tx = s.can.tx := by
      unfold Can.receive
      split <;> rfl
    change TxEvent _ _ (s.can.receive frame).tx
    rw [he]
    exact .idle _ s.can.tx.next fun _ h ↦ by cases h
  | rxFlags | esr | error | ready | fetch => exact .idle _ s.can.tx.next fun _ h ↦ by cases h

/-- Events add completions and take none away. -/
theorem completed_event {s : State} (e : Event) {c : Completion} (h : c ∈ s.can.tx.completed) :
    c ∈ (s.exec (.event e)).can.tx.completed := by
  have hc (m : Fin 3) (ok : Bool) : c ∈ (s.can.tx.complete m ok).completed := by
    unfold Transmitter.complete
    split
    · exact List.mem_append_left _ h
    · exact h
  have he := s.txEvent e
  generalize (s.exec (.event e)).can.tx = u at he ⊢
  cases he with
  | idle => exact h
  | sent m => exact hc m true
  | aborted r => exact hc r.mailbox false

/-- Events do not write mailboxes. -/
theorem mailboxes_event (s : State) (e : Event) :
    (s.exec (.event e)).can.tx.mailboxes = s.can.tx.mailboxes := by
  have hc (m : Fin 3) (ok : Bool) : (s.can.tx.complete m ok).mailboxes = s.can.tx.mailboxes := by
    unfold Transmitter.complete
    split <;> rfl
  have he := s.txEvent e
  generalize (s.exec (.event e)).can.tx = u at he ⊢
  cases he with
  | idle => rfl
  | sent m => exact hc m true
  | aborted r => exact hc r.mailbox false

/-- Events make no requests. -/
theorem requests_event (s : State) (e : Event) :
    (s.exec (.event e)).can.tx.requests ⊆ s.can.tx.requests := by
  have hc (m : Fin 3) (ok : Bool) : (s.can.tx.complete m ok).requests ⊆ s.can.tx.requests := by
    unfold Transmitter.complete
    split
    · exact List.filter_subset_self _
    · exact List.Subset.refl _
  have he := s.txEvent e
  generalize (s.exec (.event e)).can.tx = u at he ⊢
  cases he with
  | idle => exact List.Subset.refl _
  | sent m => exact hc m true
  | aborted r => exact hc r.mailbox false

theorem pending_event {s : State} (e : Event) {m : Fin 3} (h : s.can.tx.pending m = false) :
    (s.exec (.event e)).can.tx.pending m = false := by
  rw [Transmitter.pending, List.any_eq_false] at h ⊢
  exact fun r hr ↦ h r (s.requests_event e hr)

end State

/-- The device as a machine. -/
def device : Machine State Op Event := ⟨fun o s ↦ s.exec o, .event⟩

/-- Programs of the firmware. -/
abbrev Firmware := Prog State Op Event

/-- Traces of the firmware. -/
abbrev Log := Trace State Op

end CanDybug
