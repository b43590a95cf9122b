import CanDybug.Device.State
import CanDybug.Frame.Receive

/-!
# Handlers

The callbacks of `App/can_if.c` and the interrupt handler of `BSP_STM32F042/bsp_can.c` as
programs. An `access` lets the environment act before it; operations on the firmware's own
data are plain calls. Handlers do not preempt each other.
-/

namespace CanDybug

open Base

/-- An operation that reads nothing, with interference before it. -/
def write (o : Op) : Firmware Unit := access device o fun _ ↦ ()

/-- `CanIf_AddMessage`, `can_if.c:237–246`. -/
def addMessage (msg : List UInt8) : Firmware Unit := write (.addMessage msg)

/-- `CanIf_ReceiveOutData`, `can_if.c:165–176`. The queue is the firmware's own, so the whole
condition is evaluated where the error status is read. -/
def canIfReceiveOutData : Firmware Unit := do
  if ← access device .receiveOutData State.accepting then
    let offset ← observe fun s ↦ s.canIfOut.offset
    write (.usbReceive ⟨offset, u16 (sub32 canifOutDataSize offset)⟩)

/-- Loop body of `Can_PostFrames`, `can_if.c:516–529`: whether a mailbox was filled. -/
def postOne : Firmware Bool := do
  let (anyEmpty, mailbox) ←
    access device (.read .tsr) fun s ↦ (s.can.tx.anyEmpty, s.can.tx.code)
  if anyEmpty then
    write (.postFrame mailbox)
    write (.setTXRQ mailbox)
    return true
  else return false

/-- Loop of `Can_PostFrames`. Each round takes one frame from the queue. -/
def postLoop : Nat → Firmware Unit
  | 0 => pure ()
  | fuel + 1 => do
    if ← observe fun s ↦ !s.canTxQ.empty then
      if ← postOne then postLoop fuel

/-- `Can_PostFrames`, `can_if.c:512–531`. -/
def canPostFrames : Firmware Unit := do
  let stored ← observe fun s ↦ s.canTxQ.count
  postLoop stored

/-- What `Can_HandleRequest` returns on bytes of `CanIf_OUT.buffer`. -/
def State.accepts (s : State) (msg length : Nat) : Bool :=
  (canHandleRequest (fun i ↦ s.canIfOut.buffer (msg + i)) length s.canTxQ).1

/-- `Can_HandleRequest` on bytes of `CanIf_OUT.buffer`, `can_if.c:266–327`. -/
def handleRequest (msg length : Nat) : Firmware Bool :=
  call device (.handleRequest msg length) fun s ↦ s.accepts msg length

/-- Loop of `CanIf_EpOutComplete`, `can_if.c:140–148`: the fragment it leaves, or nothing
after a request that is not valid. Each round consumes at least one byte. -/
def outLoop : Nat → Nat → Nat → Firmware (Option (Nat × Nat))
  | 0, pbuf, length => pure (some (pbuf, length))
  | fuel + 1, pbuf, length => do
    let n ← observe fun s ↦ (s.canIfOut.buffer pbuf).toNat
    if n ≤ length then
      if n = 0 then
        perform device .stop
        return none
      else if ← handleRequest (pbuf + 1) (n - 1) then
        outLoop fuel (pbuf + n) (length - n)
      else
        perform device .stop
        return none
    else return some (pbuf, length)

/-- `CanIf_EpOutComplete`, `can_if.c:131–160`; pointers are indices of the buffer. -/
def canIfEpOutComplete (pbuf length : Nat) : Firmware Unit := do
  let offset ← observe fun s ↦ s.canIfOut.offset
  let length := u16 (length + offset)
  let pbuf := pbuf - offset
  perform device (.sentinel (pbuf + length))
  match ← outLoop (length + 1) pbuf length with
  | none => return ()
  | some (pbuf, length) =>
    perform device (.moveFragment pbuf length)
    canPostFrames
    canIfReceiveOutData

/-- Loop body of `Can_FrameSent`, `can_if.c:397–415`: whether the mailbox had succeeded. -/
def scanMailbox (txmb : Fin 3) : Firmware Bool := do
  if ← access device (.read (.txok txmb)) fun s ↦ s.can.tx.txok txmb then
    let tir ← access device (.read (.tir txmb)) fun s ↦ (s.can.tx.mailboxes txmb).TIR
    addMessage [canifAckFlag ||| byteAt (tir &&& canIdtypeExtRtr) 0]
    write (.clearRQCP txmb)
    return true
  else
    if ← access device (.read (.rqcp txmb)) fun s ↦ s.can.tx.rqcp txmb then
      write (.clearRQCP txmb)
    return false

/-- Loop of `Can_FrameSent`, over the mailboxes in the order of their indices. -/
def scanMailboxes : List (Fin 3) → Bool → Firmware Bool
  | [], ok => return ok
  | txmb :: rest, ok => do
    let sent ← scanMailbox txmb
    scanMailboxes rest (ok || sent)

/-- `Can_FrameSent`, `can_if.c:389–428`. -/
def canFrameSent : Firmware Unit := do
  if ← scanMailboxes (List.finRange 3) false then
    canPostFrames
    canIfReceiveOutData

/-- Loop of `Can_FrameReceived`, `can_if.c:336–379`. The FIFO's output mailbox stays the
same until it is released. -/
def receiveLoop (stack : Nat → UInt8) : Nat → Firmware Unit
  | 0 => pure ()
  | fuel + 1 => do
    if ← access device (.read .rfr) fun s ↦ !s.can.fifo.isEmpty then
      let rx ← access device (.read .rxFifo) fun s ↦ s.can.output
      addMessage (receivedMsg stack rx)
      write .releaseFifo
      receiveLoop stack fuel

/-- `Can_FrameReceived`, `can_if.c:333–383`. Frames arrive as the script says, and each round
takes one from the FIFO of three. -/
def canFrameReceived (stack : Nat → UInt8) : Firmware Unit := do
  let n ← scheduled
  receiveLoop stack (n + 4)

/-- Loop of `Can_BusError` over the mailboxes, `can_if.c:456–460`. -/
def abortMailboxes : List (Fin 3) → Firmware Unit
  | [] => return ()
  | txmb :: rest => do
    write (.setABRQ txmb)
    abortMailboxes rest

/-- `Can_BusError`, `can_if.c:434–465`. -/
def canBusError : Firmware Unit := do
  let esr ← access device (.read .esr) fun s ↦ s.can.esr
  if esr &&& canEsrLec ≠ 0 then
    addMessage [canifBusError, esr]
  write .clearERRI
  if esr &&& canErrorBlocking ≠ 0 then
    abortMailboxes (List.finRange 3)
    perform device .resetTxQ

/-- `CEC_CAN_IRQHandler`, `BSP_STM32F042/bsp_can.c:58–74`. -/
def cecCanIrqHandler (stack : Nat → UInt8) : Firmware Unit := do
  if ← access device (.read .tsr) fun s ↦ (List.finRange 3).any s.can.tx.rqcp then
    canFrameSent
  if ← access device (.read .rfr) fun s ↦ !s.can.fifo.isEmpty || s.can.rxFlags then
    canFrameReceived stack
  if ← access device (.read .esr) fun s ↦ s.can.esr &&& canEsrAny != 0 then
    canBusError

/-- `CanIf_Open`, `can_if.c:90–123`, with `Can_Setup` and `Can_Start`. The arguments are the
results of `CAN_eBitrateConfig` and `CAN_eInit`. The trace starts again after the reset. -/
def canIfOpen (bitrate init : Bool) : Firmware Unit := do
  write .resetCan
  restart
  if bitrate then
    write .canStart
    if init then
      perform device .emptyBuffers
      canIfReceiveOutData

/-- `Can_Close`, `can_if.c:252–258`. The library may give up its transfers then. -/
def canClose (dropped : Bool) : Firmware Unit := do
  write .resetCan
  restart
  if dropped then perform device .dropTransfers

end CanDybug
