import CanDybug.Base.Similar
import CanDybug.Device.Reports

/-!
# The two boards

`BSP_STM32F302/bsp_can.c` has an interrupt vector for each callback, and the interrupt
controller calls it where the peripheral raises that interrupt. `BSP_STM32F042/bsp_can.c` has one
vector for all, whose handler reads the registers to find out which callbacks to call. What the
one handler does is what separate handlers do, each called where its registers say so. But for
bus errors these are not the registers that raise the interrupt.
-/

namespace CanDybug

open Base

/-! ### Handlers do not look at the trace -/

theorem blind_write (o : Op) : Blind (write o) := blind_access o _

theorem blind_canIfReceiveOutData : Blind canIfReceiveOutData :=
  blind_bind (blind_access _ _) fun _ ↦ blind_ite
    (blind_bind (blind_observe _) fun _ ↦ blind_write _) (blind_pure ())

theorem blind_postOne : Blind postOne :=
  blind_bind (blind_access _ _) fun _ ↦ blind_ite
    (blind_bind (blind_write _) fun _ ↦ blind_bind (blind_write _) fun _ ↦ blind_pure true)
    (blind_pure false)

theorem blind_canPostFrames : Blind canPostFrames := by
  apply blind_bind (blind_observe _)
  intro n
  induction n with
  | zero => exact blind_pure ()
  | succ n ih =>
    refine blind_bind (blind_observe _) fun more ↦ blind_ite ?_ (blind_pure ())
    exact blind_bind blind_postOne fun posted ↦ blind_ite ih (blind_pure ())

theorem blind_outLoop (fuel pbuf length : Nat) : Blind (outLoop fuel pbuf length) := by
  induction fuel generalizing pbuf length with
  | zero => exact blind_pure _
  | succ fuel ih =>
    have stop : Blind (do
        perform device .stop
        return none : Firmware (Option (Nat × Nat))) :=
      blind_bind (blind_perform _) fun _ ↦ blind_pure _
    refine blind_bind (blind_observe _) fun n ↦ blind_ite (blind_ite stop ?_) (blind_pure _)
    exact blind_bind (blind_call _ _) fun _ ↦ blind_ite (ih _ _) stop

theorem blind_outCompletion (bytes : List UInt8) : Blind (outCompletion bytes) := by
  apply blind_bind (blind_observe _)
  intro armed
  cases armed with
  | none => exact blind_pure ()
  | some g =>
    refine blind_ite (blind_bind (blind_perform _) fun _ ↦ ?_) (blind_pure ())
    refine blind_bind (blind_observe _) fun offset ↦ blind_bind (blind_perform _) fun _ ↦ ?_
    apply blind_bind (blind_outLoop _ _ _)
    intro r
    cases r with
    | none => exact blind_pure ()
    | some r =>
      exact blind_bind (blind_perform _) fun _ ↦
        blind_bind blind_canPostFrames fun _ ↦ blind_canIfReceiveOutData

theorem blind_scanMailbox (m : Fin 3) : Blind (scanMailbox m) := by
  refine blind_bind (blind_access _ _) fun ok ↦ blind_ite ?_ ?_
  · refine blind_bind (blind_access _ _) fun tir ↦ blind_bind (blind_write _) fun _ ↦ ?_
    exact blind_bind (blind_write _) fun _ ↦ blind_pure true
  · apply blind_bind (blind_access _ _)
    intro rqcp
    exact blind_ite (blind_bind (blind_write _) fun _ ↦ blind_pure false) (blind_pure false)

theorem blind_canFrameSent : Blind canFrameSent := by
  refine blind_bind ?_ fun ok ↦ blind_ite
    (blind_bind blind_canPostFrames fun _ ↦ blind_canIfReceiveOutData) (blind_pure ())
  generalize List.finRange 3 = ms
  generalize false = ok
  induction ms generalizing ok with
  | nil => exact blind_pure ok
  | cons m ms ih => exact blind_bind (blind_scanMailbox m) fun sent ↦ ih _

theorem blind_canFrameReceived (stack : Nat → UInt8) : Blind (canFrameReceived stack) := by
  apply blind_bind blind_scheduled
  intro n
  induction n + 4 with
  | zero => exact blind_pure ()
  | succ n ih =>
    refine blind_bind (blind_access _ _) fun more ↦ blind_ite ?_ (blind_pure ())
    refine blind_bind (blind_access _ _) fun rx ↦ blind_bind (blind_write _) fun _ ↦ ?_
    exact blind_bind (blind_write _) fun _ ↦ ih

theorem blind_canBusError : Blind canBusError := by
  have abort (ms : List (Fin 3)) : Blind (abortMailboxes ms) := by
    induction ms with
    | nil => exact blind_pure ()
    | cons m ms ih => exact blind_bind (blind_write _) fun _ ↦ ih
  apply blind_bind (blind_access _ _)
  intro esr
  have rest : Blind (do
      write .clearERRI
      if esr &&& canErrorBlocking ≠ 0 then
        abortMailboxes (List.finRange 3)
        perform device .resetTxQ) :=
    blind_bind (blind_write _) fun _ ↦
      blind_ite (blind_bind (abort _) fun _ ↦ blind_perform _) (blind_pure ())
  exact blind_ite (blind_bind (blind_write _) fun _ ↦ rest) rest

theorem blind_reset {x : Firmware Unit} (hx : Blind x) :
    Blind (do write .resetCan; restart; x) :=
  blind_bind (blind_write _) fun _ ↦ blind_bind blind_restart fun _ ↦ hx

theorem blind_canIfOpen (bitrate init : Bool) : Blind (canIfOpen bitrate init) := by
  refine blind_reset (blind_ite ?_ (blind_pure ()))
  refine blind_bind (blind_write _) fun _ ↦ blind_ite ?_ (blind_pure ())
  exact blind_bind (blind_perform _) fun _ ↦ blind_canIfReceiveOutData

theorem blind_canClose (dropped : Bool) : Blind (canClose dropped) :=
  blind_reset (blind_ite (blind_perform _) (blind_pure ()))

theorem blind_cecCanIrqHandler (stack : Nat → UInt8) : Blind (cecCanIrqHandler stack) := by
  have last : Blind (do
      if ← access device (.read .esr) fun s ↦ s.can.esr &&& canEsrAny != 0 then canBusError) :=
    blind_bind (blind_access _ _) fun _ ↦ blind_ite blind_canBusError (blind_pure ())
  apply blind_bind (blind_access _ _)
  intro _
  refine blind_ite (blind_bind blind_canFrameSent fun _ ↦ ?rest) ?rest
  apply blind_bind (blind_access _ _)
  intro _
  exact blind_ite (blind_bind (blind_canFrameReceived stack) fun _ ↦ last) last

theorem blind_program (a : Action) : Blind a.program := by
  cases a with
  | canIfOpen bitrate init => exact blind_canIfOpen bitrate init
  | canClose dropped => exact blind_canClose dropped
  | epOutComplete bytes => exact blind_outCompletion bytes
  | epInComplete => exact blind_write _
  | frameReceived stack => exact blind_canFrameReceived stack
  | frameSent => exact blind_canFrameSent
  | busError => exact blind_canBusError
  | canIrq stack => exact blind_cecCanIrqHandler stack
  | event e => exact blind_perform _

/-! ### One vector and several -/

/-- No callback is called on its own. -/
def Action.combined : Action → Bool
  | frameReceived _ | frameSent | busError => false
  | _ => true

/-- Where the handler of the F042 calls a callback. -/
def State.polled (s : State) : Action → Bool
  | .frameSent => (List.finRange 3).any s.can.tx.rqcp
  | .frameReceived _ => !s.can.fifo.isEmpty || s.can.rxFlags
  | .busError => s.can.esr &&& canEsrAny != 0
  | .canIrq _ => false
  | _ => true

/-- Where the interrupt controller of the F302 calls a callback. -/
def State.raised (s : State) : Action → Bool
  | .frameSent => (List.finRange 3).any s.can.tx.rqcp
  | .frameReceived _ => !s.can.fifo.isEmpty
  | .busError => s.can.erri
  | .canIrq _ => false
  | _ => true

/-- Each action of a run happens where it may. -/
def Permitted (may : State → Action → Bool) : Config → List Step → Prop
  | _, [] => True
  | c, a :: steps => may c.state a.action = true ∧ Permitted may (run c [a]) steps

instance decidablePermitted (may : State → Action → Bool) (c : Config) :
    (steps : List Step) → Decidable (Permitted may c steps)
  | [] => .isTrue trivial
  | a :: steps =>
    have := decidablePermitted may (run c [a]) steps
    inferInstanceAs (Decidable (_ ∧ _))

theorem permitted_append {may : State → Action → Bool} {c : Config} {steps steps' : List Step}
    (h : Permitted may c steps) (h' : Permitted may (run c steps) steps') :
    Permitted may c (steps ++ steps') := by
  induction steps generalizing c with
  | nil => exact h'
  | cons a steps ih => exact ⟨h.1, ih h.2 h'⟩

/-- Anything but reading a register. -/
def Op.works : Op → Bool
  | read _ => false
  | _ => true

/-- The same operations in the same states, apart from registers read. -/
def SameWork (t t' : Log) : Prop := t.filter (·.1.works) = t'.filter (·.1.works)

theorem growing_sameWork : Growing SameWork := growing_filter _

/-- The same state after the same work. -/
structure Like (c c' : Config) : Prop where
  state : c.state = c'.state
  work : SameWork c.trace c'.trace

/-- What the program does is done by a run of separate handlers, each called where its
registers say so. -/
def Simulated (x : Firmware Unit) : Prop :=
  ∀ c c', Like c c' → ∃ steps, Permitted State.polled c' steps ∧
    Like (x c).2 (run c' steps)

theorem Simulated.bind {x y : Firmware Unit} (hx : Simulated x) (hy : Simulated y) :
    Simulated (do x; y) := by
  intro c c' h
  obtain ⟨steps, he, hl⟩ := hx c c' h
  obtain ⟨steps', he', hl'⟩ := hy (x c).2 _ hl
  exact ⟨steps ++ steps', permitted_append he he', run_append c' steps steps' ▸ hl'⟩

/-- Events happen between handlers. -/
theorem simulated_interfere : Simulated (interfere device) := by
  have events (es : List Event) (c c' : Config) (h : Like c c') :
      ∃ steps, Permitted State.polled c' steps ∧
        Like (es.foldl (fun c e ↦ c.exec device (device.env e)) c) (run c' steps) := by
    induction es generalizing c c' with
    | nil => exact ⟨[], trivial, h⟩
    | cons e es ih =>
      have hone : Like (c.exec device (.event e)) (run c' [⟨.event e, []⟩]) := by
        refine ⟨congrArg (State.exec · (.event e)) h.state, ?_⟩
        change SameWork (c.trace ++ [(.event e, c.state)]) (c'.trace ++ [(.event e, c'.state)])
        rw [h.state]
        exact growing_sameWork.concat _ _ _ h.work
      obtain ⟨steps, he, hl⟩ := ih _ _ hone
      exact ⟨⟨.event e, []⟩ :: steps, ⟨rfl, he⟩, hl⟩
  intro c c' h
  unfold interfere
  split
  · exact ⟨[], trivial, h⟩
  · next es rest _ => exact events es { c with script := rest } c' ⟨h.state, h.work⟩

/-- A callback behind a look at the registers. -/
theorem simulated_poll (a : Action) (r : Register) {f : State → Bool}
    (hf : ∀ s, f s = true → s.polled a = true) :
    Simulated (do if ← access device (.read r) f then a.program) := by
  intro c c' h
  obtain ⟨events, he, hl⟩ := simulated_interfere c c' h
  generalize hi : (interfere device c).2 = i at hl
  have hread : Like (i.exec device (.read r)) (run c' events) := by
    refine ⟨hl.state, ?_⟩
    have hw := hl.work
    rw [SameWork] at hw ⊢
    rw [← hw]
    simp [Conf.exec, Op.works]
  have hx : (do if ← access device (.read r) f then a.program : Firmware Unit) c =
      (if f i.state = true then a.program else pure ()) (i.exec device (.read r)) := by
    rw [← hi]
    rfl
  rw [hx]
  split
  · next hv =>
    refine ⟨events ++ [⟨a, i.script⟩], permitted_append he ⟨hf _ (hl.state ▸ hv), trivial⟩, ?_⟩
    rw [run_append]
    obtain ⟨-, hend⟩ := blind_program a SameWork growing_sameWork (i.exec device (.read r))
      { run c' events with script := i.script } ⟨hread.state, rfl, hread.work⟩
    exact ⟨hend.state, hend.trace⟩
  · exact ⟨events, he, hread⟩

/-- `CEC_CAN_IRQHandler` looks at the registers of one callback after the other. -/
theorem simulated_canIrq (stack : Nat → UInt8) : Simulated (cecCanIrqHandler stack) := by
  have h := ((simulated_poll .frameSent .tsr
    (f := fun s ↦ (List.finRange 3).any s.can.tx.rqcp) fun _ h ↦ h).bind
    ((simulated_poll (.frameReceived stack) .rfr
      (f := fun s ↦ !s.can.fifo.isEmpty || s.can.rxFlags) fun _ h ↦ h).bind
    (simulated_poll .busError .esr (f := fun s ↦ s.can.esr &&& canEsrAny != 0) fun _ h ↦ h)))
  have join (b : Bool) (x y : Firmware Unit) :
      (if b = true then (do x; y) else y) =
        ((if b = true then x else pure ()) >>= fun _ ↦ y) := by
    cases b <;> rfl
  have heq : cecCanIrqHandler stack = (do
      let sent ← access device (.read .tsr) fun s ↦ (List.finRange 3).any s.can.tx.rqcp
      (if sent = true then canFrameSent else pure ()) >>= fun _ ↦ do
        let received ← access device (.read .rfr) fun s ↦ !s.can.fifo.isEmpty || s.can.rxFlags
        (if received = true then canFrameReceived stack else pure ()) >>= fun _ ↦ do
          if ← access device (.read .esr) fun s ↦ s.can.esr &&& canEsrAny != 0 then
            canBusError) := by
    simp only [← join]
    rfl
  rw [heq]
  exact h

/-- Everything else happens as it is. -/
theorem simulated_step (a : Step) (ha : a.action.combined = true) : Simulated a.program := by
  obtain ⟨action, script⟩ := a
  intro c c' h
  have agree : Agree SameWork { c with script } { c' with script } := ⟨h.state, rfl, h.work⟩
  have alone (hp : c'.state.polled action = true) :
      ∃ steps, Permitted State.polled c' steps ∧
        Like (Step.program ⟨action, script⟩ c).2 (run c' steps) := by
    obtain ⟨-, hend⟩ := blind_program action SameWork growing_sameWork _ _ agree
    exact ⟨[⟨action, script⟩], ⟨hp, trivial⟩, hend.state, hend.trace⟩
  cases action with
  | frameReceived | frameSent | busError => contradiction
  | canIrq stack => exact simulated_canIrq stack { c with script } c' ⟨h.state, h.work⟩
  | _ => exact alone rfl

/-- Whatever happens on the F042, from any state on: some run of separate handlers, each called
where the registers that `CEC_CAN_IRQHandler` looks at say so, comes to the same state by the
same operations, apart from registers read. -/
theorem canIrq_separated (c : Config) (steps : List Step)
    (combined : ∀ a ∈ steps, a.action.combined = true) :
    ∃ steps', Permitted State.polled c steps' ∧
      (run c steps').state = (run c steps).state ∧
      SameWork (run c steps').trace (run c steps).trace := by
  have h (c c' : Config) (hl : Like c c') : ∃ steps', Permitted State.polled c' steps' ∧
      Like (run c steps) (run c' steps') := by
    induction steps generalizing c c' with
    | nil => exact ⟨[], trivial, hl⟩
    | cons a steps ih =>
      obtain ⟨ha, hsteps⟩ := List.forall_mem_cons.mp combined
      obtain ⟨one, he, hone⟩ := simulated_step a ha c c' hl
      obtain ⟨rest, her, hrest⟩ := ih hsteps _ _ hone
      exact ⟨one ++ rest, permitted_append he her, run_append c' one rest ▸ hrest⟩
  obtain ⟨steps', he, hl⟩ := h c c ⟨rfl, rfl⟩
  exact ⟨steps', he, hl.state.symm, hl.work.symm⟩

/-- While the handler is at work, another frame is transmitted, one is received, and an error
occurs. -/
def interrupted : List Step :=
  [⟨.canIfOpen true true, []⟩, ⟨.epOutComplete [4, 2, 0, 1, 4, 2, 0, 2], []⟩,
    ⟨.event (.txOk 0), []⟩,
    ⟨.canIrq fun _ ↦ 0, [[], [], [], [], [], [], [], [], [.txOk 1],
      [.rx ⟨0x20400000, 2, 0x0201, 0⟩], [.error 0x11]]⟩,
    ⟨.canIrq fun _ ↦ 0, []⟩]

/-- Separate handlers do the same. -/
theorem canIrq_separated_interrupted :
    ∃ steps', Permitted State.polled (boot (fun _ ↦ ⟨0, 0, 0, 0⟩) (fun _ ↦ ⟨0, 0, 0, 0⟩)
        (fun _ ↦ 0) fun _ ↦ 0) steps' ∧
      (run (boot (fun _ ↦ ⟨0, 0, 0, 0⟩) (fun _ ↦ ⟨0, 0, 0, 0⟩) (fun _ ↦ 0) fun _ ↦ 0)
          steps').state =
        (run (boot (fun _ ↦ ⟨0, 0, 0, 0⟩) (fun _ ↦ ⟨0, 0, 0, 0⟩) (fun _ ↦ 0) fun _ ↦ 0)
          interrupted).state ∧
      SameWork (run (boot (fun _ ↦ ⟨0, 0, 0, 0⟩) (fun _ ↦ ⟨0, 0, 0, 0⟩) (fun _ ↦ 0) fun _ ↦ 0)
          steps').trace
        (run (boot (fun _ ↦ ⟨0, 0, 0, 0⟩) (fun _ ↦ ⟨0, 0, 0, 0⟩) (fun _ ↦ 0) fun _ ↦ 0)
          interrupted).trace :=
  canIrq_separated (boot (fun _ ↦ ⟨0, 0, 0, 0⟩) (fun _ ↦ ⟨0, 0, 0, 0⟩) (fun _ ↦ 0) fun _ ↦ 0)
    interrupted (by decide)

/-! ### Bus errors on the F302 -/

theorem Fresh.keep {o : Op} (ho : o.reports = false) : OpKeeps device (fun _ ↦ Fresh) o :=
  fun _ t h ↦ (fresh_concat t _).mpr ⟨h, by simp [ho]⟩

private theorem fresh_stable : Stable device fun _ ↦ Fresh := fun _ ↦ Fresh.keep rfl

private theorem fresh_receive : Keeps (fun _ ↦ Fresh) canIfReceiveOutData :=
  keeps_canIfReceiveOutData fresh_stable (Fresh.keep rfl) fun _ ↦ Fresh.keep rfl

private theorem fresh_canPostFrames : Keeps (fun _ ↦ Fresh) canPostFrames :=
  keeps_canPostFrames (keeps_postOne fresh_stable (Fresh.keep rfl)
    (fun m s t h _ ↦ Fresh.keep (o := .postFrame m) rfl s t h) fun _ ↦ Fresh.keep rfl)

/-- `ERRI` stays set until the handler clears it. -/
private theorem fresh_canBusError :
    Triple (fun s t ↦ Fresh t ∧ s.can.erri = true) canBusError fun _ _ ↦ Fresh := by
  have stable : Stable device fun s t ↦ Fresh t ∧ s.can.erri = true := by
    rintro e s t ⟨h, he⟩
    refine ⟨fresh_stable e s t h, ?_⟩
    cases e with
    | error v => rfl
    | rx frame =>
      change (s.can.receive frame).erri = true
      unfold Can.receive
      split <;> exact he
    | _ => exact he
  have rest (esr : UInt8) : Keeps (fun _ ↦ Fresh) (do
      write .clearERRI
      if esr &&& canErrorBlocking ≠ 0 then
        abortMailboxes (List.finRange 3)
        perform device .resetTxQ) := by
    refine keeps_bind (keeps_write fresh_stable (Fresh.keep rfl)) fun _ ↦
      keeps_ite ?_ (keeps_pure ())
    exact keeps_bind (keeps_abortMailboxes fresh_stable (fun _ ↦ Fresh.keep rfl) _)
      fun _ ↦ keeps_perform (Fresh.keep rfl)
  refine Triple.bind (R := fun _ s t ↦ Fresh t ∧ s.can.erri = true) (Triple.access _ stable
    fun s t h ↦ ⟨Fresh.keep (o := .read .esr) rfl s t h.1, h.2⟩) fun esr ↦
      Triple.ite (fun _ ↦ ?_) fun _ ↦ (rest esr).pre fun _ _ h ↦ h.1
  exact Triple.bind (R := fun _ _ ↦ Fresh) (Triple.access _ stable fun s t h ↦
    (fresh_concat t _).mpr ⟨h.1, fun _ ↦ h.2⟩) fun _ ↦ rest esr

private theorem fresh_program {a : Action} {s : State} (ha : s.raised a = true) :
    Triple (fun s' t ↦ s' = s ∧ Fresh t) a.program fun _ _ ↦ Fresh := by
  have reset (s : State) (t : Log) (_ : Fresh t) : Fresh [] := by simp [Fresh]
  have fresh {x : Firmware Unit} (h : Keeps (fun _ ↦ Fresh) x) :
      Triple (fun s' t ↦ s' = s ∧ Fresh t) x fun _ _ ↦ Fresh := h.pre fun _ _ h ↦ h.2
  cases a with
  | canIrq => contradiction
  | busError =>
    apply fresh_canBusError.pre
    rintro s' t ⟨rfl, h⟩
    exact ⟨h, ha⟩
  | canIfOpen bitrate init =>
    exact fresh (keeps_canIfOpen fresh_stable reset (Fresh.keep rfl) (Fresh.keep rfl)
      fresh_receive bitrate init)
  | canClose dropped =>
    exact fresh (keeps_canClose fresh_stable reset (Fresh.keep rfl) dropped)
  | epOutComplete bytes =>
    exact fresh (keeps_outCompletion (fun _ ↦ Fresh.keep rfl) (fun _ ↦ Fresh.keep rfl)
      (fun _ _ ↦ Fresh.keep rfl) (Fresh.keep rfl) (fun _ _ ↦ Fresh.keep rfl)
      fresh_canPostFrames fresh_receive bytes)
  | epInComplete => exact fresh (keeps_write fresh_stable (Fresh.keep rfl))
  | event e => exact fresh (keeps_perform (Fresh.keep rfl))
  | frameReceived stack =>
    refine fresh (keeps_receiveLoop fresh_stable (Fresh.keep rfl) (Fresh.keep rfl) stack
      (fun rx ↦ Fresh.keep ?_) (Fresh.keep rfl))
    obtain ⟨msg, hmsg⟩ := receivedMsg_cons rx stack
    rw [hmsg]
    exact beq_false_of_ne (typeByte_ne _)
  | frameSent =>
    refine fresh (keeps_canFrameSent (keeps_scanMailbox fresh_stable (fun _ _ ↦ Fresh.keep rfl)
      (fun tir ↦ Fresh.keep ?_) fun _ ↦ Fresh.keep rfl) fresh_canPostFrames fresh_receive)
    exact beq_false_of_ne (ackByte_ne _)

private theorem fresh_run {c : Config} {steps : List Step} (h : Fresh c.trace)
    (raised : Permitted State.raised c steps) : Fresh (run c steps).trace := by
  induction steps generalizing c with
  | nil => exact h
  | cons a steps ih =>
    exact ih (fresh_program raised.1 { c with script := a.script } ⟨rfl, h⟩) raised.2

/-- In every run on the F302, and since the last `CanIf_Open` or `Can_Close`: there are no more
reports of bus errors than error events, as `Can_BusError` is called while `ERRI` is set. -/
theorem reports_raised (mailboxes : Fin 3 → TxMailBox) (txq : Nat → TxMailBox)
    (inb outb : Nat → UInt8) (steps : List Step)
    (raised : Permitted State.raised (boot mailboxes txq inb outb) steps) :
    reports (run (boot mailboxes txq inb outb) steps).trace ≤
      signalled (run (boot mailboxes txq inb outb) steps).trace := by
  have hmatched := keeps_anyRun matched_program (c := boot mailboxes txq inb outb)
    (fun _ ↦ Nat.le_refl 0) steps
  exact (Nat.le_add_right _ _).trans (hmatched (fresh_run (by simp [Fresh, boot]) raised))

/-- The run that the F042 reports twice: an error makes the status passive while a frame is
requested, and its abort takes effect. -/
def reportedOnce : List Step :=
  [⟨.canIfOpen true true, []⟩, ⟨.epOutComplete [5, 0, 1, 2, 7], []⟩, ⟨.event (.error 0x12), []⟩,
    ⟨.busError, []⟩, ⟨.event (.txAbort 0), []⟩, ⟨.frameSent, []⟩]

/-- One error event, one report. -/
theorem reports_raised_once :
    reports (run (boot (fun _ ↦ ⟨0, 0, 0, 0⟩) (fun _ ↦ ⟨0, 0, 0, 0⟩) (fun _ ↦ 0) fun _ ↦ 0)
        reportedOnce).trace ≤
      signalled (run (boot (fun _ ↦ ⟨0, 0, 0, 0⟩) (fun _ ↦ ⟨0, 0, 0, 0⟩) (fun _ ↦ 0) fun _ ↦ 0)
        reportedOnce).trace :=
  reports_raised (fun _ ↦ ⟨0, 0, 0, 0⟩) (fun _ ↦ ⟨0, 0, 0, 0⟩) (fun _ ↦ 0) (fun _ ↦ 0)
    reportedOnce (by decide +kernel)

end CanDybug
