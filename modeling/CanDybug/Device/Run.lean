import CanDybug.Device.Handlers

/-!
# Runs of the device

A run is any sequence of handlers and of events between them. What an assertion needs to
hold in every state of every run is stated once: that the parts the handlers are made of
keep it. An assertion that every operation keeps needs nothing else.
-/

namespace CanDybug

open Base

/-- What the device does next. Completions happen of outstanding transfers only. -/
inductive Action where
  | canIfOpen (bitrate init : Bool)
  | canClose (dropped : Bool)
  | epOutComplete (bytes : List UInt8)
  | epInComplete
  | frameReceived (stack : Nat → UInt8)
  | frameSent
  | busError
  | canIrq (stack : Nat → UInt8)
  | event (e : Event)

/-- An OUT transfer completes with at most the requested bytes, and the callback runs. -/
def outCompletion (bytes : List UInt8) : Firmware Unit := do
  match ← observe State.armed with
  | none => return ()
  | some g =>
    if bytes.length ≤ g.length then
      perform device (.deliver bytes)
      canIfEpOutComplete g.start bytes.length

/-- The program of an action. -/
def Action.program : Action → Firmware Unit
  | canIfOpen bitrate init => CanDybug.canIfOpen bitrate init
  | canClose dropped => CanDybug.canClose dropped
  | epOutComplete bytes => outCompletion bytes
  | epInComplete => write .epInComplete
  | frameReceived stack => canFrameReceived stack
  | frameSent => canFrameSent
  | busError => canBusError
  | canIrq stack => cecCanIrqHandler stack
  | event e => perform device (.event e)

/-- An action with what the environment does meanwhile. -/
structure Step where
  action : Action
  script : List (List Event)

/-- The program of a step. -/
def Step.program (a : Step) : Firmware Unit := do
  schedule a.script
  a.action.program

/-- A configuration of the firmware. -/
abbrev Config := Conf State Op Event

/-- Any sequence of steps. -/
def run (c : Config) (steps : List Step) : Config :=
  (steps.map Step.program).foldl (fun c x ↦ (x c).2) c

theorem run_append (c : Config) (steps steps' : List Step) :
    run c (steps ++ steps') = run (run c steps) steps' := by
  simp [run, List.foldl_append]

/-- The device after power-on: any contents of mailboxes and buffers, nothing queued,
nothing outstanding, the peripheral at rest. -/
def boot (mailboxes : Fin 3 → TxMailBox) (txq : Nat → TxMailBox) (inb outb : Nat → UInt8) :
    Config where
  state := {
    can := {
      tx := .idle mailboxes
      fifo := [], rxFlags := false, esr := 0, erri := false, ier := 0 }
    canTxQ := ⟨canTxQCapacity, 0, 0, txq⟩
    canIfIn := .initial inb
    ready := true
    canIfOut := ⟨outb, 0⟩
    armed := none }
  script := []
  trace := []

/-! ### The loop of `Can_PostFrames` -/

/-- Events do not touch the queue. -/
theorem stable_queue {P : Assertion State Op} (hP : Stable device P)
    (p : Queue TxMailBox → Prop) : Stable device fun s t ↦ P s t ∧ p s.canTxQ := fun e s t h ↦
  ⟨hP e s t h.1, (s.exec_event e).1.symm ▸ h.2⟩

section Posting

variable {I J : Assertion State Op} {W R : Fin 3 → Assertion State Op}
  (hi : Stable device I) (hw : ∀ m, Stable device (W m)) (hr : ∀ m, Stable device (R m))
  (empty : ∀ s t, I s t → s.canTxQ.empty = true → J s t)
  (full : ∀ s t, I s t → s.canTxQ.empty = false → s.can.tx.anyEmpty = false →
    J s (t ++ [(.read .tsr, s)]))
  (look : ∀ s t, I s t → s.canTxQ.empty = false → s.can.tx.anyEmpty = true →
    W s.can.tx.code s (t ++ [(.read .tsr, s)]))
  (post : ∀ m s t, W m s t → s.canTxQ.empty = false →
    R m (s.exec (.postFrame m)) (t ++ [(.postFrame m, s)]))
  (request : ∀ m s t, R m s t → I (s.exec (.setTXRQ m)) (t ++ [(.setTXRQ m, s)]))

include hi hw hr full look post request in
private theorem postOne_ends (n : Nat) :
    Triple (fun s t ↦ I s t ∧ (s.canTxQ.WellFormed ∧ s.canTxQ.count ≤ n + 1) ∧
        s.canTxQ.empty = false) postOne
      fun posted s t ↦ if posted = true then I s t ∧ s.canTxQ.WellFormed ∧ s.canTxQ.count ≤ n
        else J s t := by
  refine Triple.bind (R := fun tsr s t ↦ if tsr.1 = true then
    W tsr.2 s t ∧ (s.canTxQ.WellFormed ∧ s.canTxQ.count ≤ n + 1) ∧ s.canTxQ.empty = false
    else J s t) (Triple.access _ (stable_queue hi fun q ↦
      (q.WellFormed ∧ q.count ≤ n + 1) ∧ q.empty = false) ?_) fun tsr ↦
    Triple.ite (fun ht ↦ ?_) fun ht ↦ Triple.pure false fun _ _ h ↦ by rwa [if_neg ht] at h
  · intro s t h
    split
    · next ha => exact ⟨look s t h.1 h.2.2 ha, h.2⟩
    · next ha => exact full s t h.1 h.2.2 (by simpa using ha)
  · refine Triple.bind (R := fun _ s t ↦ R tsr.2 s t ∧
      (s.canTxQ.WellFormed ∧ s.canTxQ.count ≤ n)) ?_ fun _ ↦
      Triple.bind (R := fun _ s t ↦ I s t ∧ s.canTxQ.WellFormed ∧ s.canTxQ.count ≤ n) ?_ fun _ ↦
        Triple.pure true fun _ _ h ↦ h
    · refine Triple.pre (Triple.access _ (stable_queue (hw tsr.2) fun q ↦
        (q.WellFormed ∧ q.count ≤ n + 1) ∧ q.empty = false) ?_)
        fun _ _ h ↦ by rwa [if_pos ht] at h
      rintro s t ⟨h, ⟨hq, hc⟩, he⟩
      have hpos := Queue.count_pos hq he
      refine ⟨post _ s t h he, hq.get, ?_⟩
      change s.canTxQ.get.2.count ≤ n
      rw [Queue.count_get hq hpos]
      omega
    · exact Triple.access _ (stable_queue (hr tsr.2) fun q ↦ q.WellFormed ∧ q.count ≤ n)
        fun s t h ↦ ⟨request _ s t h.1, h.2⟩

include hi hw hr empty full look post request in
/-- Rule for `Can_PostFrames`. It ends with the queue empty, or having found no mailbox empty;
`W` holds from a mailbox found empty until it is written, `R` until its request is made. A
frame leaves the queue in each round, so the fuel is never used up. -/
theorem canPostFrames_rule :
    Triple (fun s t ↦ I s t ∧ s.canTxQ.WellFormed) canPostFrames fun _ ↦ J := by
  refine Triple.bind (R := fun n s t ↦ I s t ∧ s.canTxQ.WellFormed ∧ s.canTxQ.count ≤ n)
    (Triple.observe fun _ _ h ↦ ⟨h.1, h.2, Nat.le_refl _⟩) fun n ↦ ?_
  induction n with
  | zero =>
    refine Triple.pure () fun s t h ↦ empty s t h.1 ((Queue.empty_iff h.2.1).mpr ?_)
    rw [← List.length_eq_zero_iff, Queue.length_contents]
    exact Nat.le_zero.mp h.2.2
  | succ n ih =>
    refine Triple.bind (R := fun more s t ↦
      (I s t ∧ s.canTxQ.WellFormed ∧ s.canTxQ.count ≤ n + 1) ∧ more = !s.canTxQ.empty)
      (Triple.observe fun _ _ h ↦ ⟨h, rfl⟩) fun more ↦ Triple.ite (fun hm ↦ ?_) fun hm ↦ ?_
    · refine Triple.bind ((postOne_ends hi hw hr full look post request n).pre ?_) fun posted ↦
        Triple.ite (fun hp ↦ ih.pre fun _ _ h ↦ by rwa [if_pos hp] at h) fun hp ↦
          Triple.pure () fun _ _ h ↦ by rwa [if_neg hp] at h
      rintro s t ⟨h, he⟩
      exact ⟨h.1, h.2, by simpa [hm] using he⟩
    · refine Triple.pure () fun s t h ↦ empty s t h.1.1 ?_
      simpa [h.2] using hm

end Posting

/-! ### Handlers made of operations that keep an assertion -/

section Keeps

variable {I : Assertion State Op} (hs : Stable device I)

include hs

theorem keeps_write {o : Op} (h : OpKeeps device I o) : Keeps I (write o) := keeps_access hs h _

/-- The loop body of `Can_FrameSent` does not read `TSR` as a whole. -/
theorem keeps_scanMailbox (hr : ∀ r, r ≠ .tsr → OpKeeps device I (.read r))
    (hm : ∀ tir, OpKeeps device I
      (.addMessage [canifAckFlag ||| byteAt (tir &&& canIdtypeExtRtr) 0]))
    (hc : ∀ m, OpKeeps device I (.clearRQCP m)) (m : Fin 3) : Keeps I (scanMailbox m) := by
  refine keeps_bind (keeps_access hs (hr _ (by simp)) _) fun ok ↦ keeps_ite ?_ ?_
  · refine keeps_bind (keeps_access hs (hr _ (by simp)) _) fun tir ↦ ?_
    refine keeps_bind (keeps_write hs (hm _)) fun _ ↦ ?_
    exact keeps_bind (keeps_write hs (hc m)) fun _ ↦ keeps_pure true
  · refine keeps_bind (keeps_access hs (hr _ (by simp)) _) fun rqcp ↦ ?_
    exact keeps_ite (keeps_bind (keeps_write hs (hc m)) fun _ ↦ keeps_pure false) (keeps_pure false)

/-- Rule for the loop body of `Can_FrameSent`: `S` holds from `TXOK` read as set on, and `B`
from `RQCP` alone read as set until it is cleared. -/
theorem scanMailbox_sent {S B : Assertion State Op} (hS : Stable device S) (hB : Stable device B)
    (m : Fin 3)
    (hit : ∀ s t, I s t → s.can.tx.txok m = true → S s (t ++ [(.read (.txok m), s)]))
    (miss : ∀ s t, I s t → s.can.tx.txok m = false → I s (t ++ [(.read (.txok m), s)]))
    (tir : OpKeeps device S (.read (.tir m))) (ack : ∀ msg, OpKeeps device S (.addMessage msg))
    (handled : OpKeeps device S (.clearRQCP m))
    (rqcp : ∀ s t, I s t → s.can.tx.rqcp m = true → B s (t ++ [(.read (.rqcp m), s)]))
    (idle : ∀ s t, I s t → s.can.tx.rqcp m = false → I s (t ++ [(.read (.rqcp m), s)]))
    (clear : ∀ s t, B s t → I (s.exec (.clearRQCP m)) (t ++ [(.clearRQCP m, s)])) :
    Triple I (scanMailbox m) fun sent s t ↦ if sent = true then S s t else I s t := by
  refine Triple.bind (R := fun ok s t ↦ if ok = true then S s t else I s t)
    (Triple.access _ hs ?_) fun ok ↦ Triple.ite (fun hok ↦ ?_) fun hok ↦ ?_
  · intro s t h
    split
    · next hok => exact hit s t h hok
    · next hok => exact miss s t h (by simpa using hok)
  · refine Triple.bind (R := fun _ ↦ S) ((keeps_access hS tir _).pre fun _ _ h ↦ by
      rwa [if_pos hok] at h) fun tir ↦ ?_
    refine Triple.bind (R := fun _ ↦ S) (keeps_write hS (ack _)) fun _ ↦ ?_
    exact Triple.bind (R := fun _ ↦ S) (keeps_write hS handled) fun _ ↦
      Triple.pure true fun _ _ h ↦ h
  · refine Triple.bind (R := fun q s t ↦ if q = true then B s t else I s t)
      ((Triple.access _ hs ?_).pre fun _ _ h ↦ by rwa [if_neg hok] at h) fun q ↦
        Triple.ite (fun hq ↦ ?_) fun hq ↦ ?_
    · intro s t h
      split
      · next hq => exact rqcp s t h hq
      · next hq => exact idle s t h (by simpa using hq)
    · refine Triple.bind (R := fun _ ↦ I) ((Triple.access _ hB clear).pre fun _ _ h ↦ by
        rwa [if_pos hq] at h) fun _ ↦ ?_
      exact Triple.pure false fun _ _ h ↦ h
    · exact Triple.pure false fun _ _ h ↦ by rwa [if_neg hq] at h

/-- Rule for one round of `Can_PostFrames`. A frame is posted while the queue is not empty, to
a mailbox that is; `W` holds while the mailbox is written and its request is not made. -/
theorem postOne_rule {W : Fin 3 → Assertion State Op} (hw : ∀ m, Stable device (W m))
    (hr : OpKeeps device I (.read .tsr))
    (hp : ∀ m s t, I s t → s.canTxQ.empty = false → s.can.tx.pending m = false →
      W m (s.exec (.postFrame m)) (t ++ [(.postFrame m, s)]))
    (hq : ∀ m s t, W m s t → I (s.exec (.setTXRQ m)) (t ++ [(.setTXRQ m, s)])) :
    Triple (fun s t ↦ I s t ∧ s.canTxQ.empty = false) postOne fun _ ↦ I := by
  have hs' : Stable device fun s t ↦ I s t ∧ s.canTxQ.empty = false :=
    stable_queue hs (·.empty = false)
  refine Triple.bind (R := fun tsr s t ↦ (I s t ∧ s.canTxQ.empty = false) ∧
    (tsr.1 = true → s.can.tx.pending tsr.2 = false)) (Triple.access _ hs' fun s t h ↦
      ⟨⟨hr s t h.1, h.2⟩, Transmitter.pending_code⟩) fun tsr ↦
    Triple.ite (fun hany ↦ ?_) fun _ ↦ Triple.pure false fun _ _ h ↦ h.1.1
  -- Nothing but the firmware makes requests, so the mailbox is still empty.
  have hs'' : Stable device fun s t ↦ (I s t ∧ s.canTxQ.empty = false) ∧
      (tsr.1 = true → s.can.tx.pending tsr.2 = false) := fun e s t h ↦
    ⟨hs' e s t h.1, fun ht ↦ State.pending_event e (h.2 ht)⟩
  refine Triple.bind (R := fun _ ↦ W tsr.2) (Triple.access _ hs'' fun s t h ↦
    hp _ s t h.1.1 h.1.2 (h.2 hany)) fun _ ↦ ?_
  exact Triple.bind (Triple.access _ (hw _) fun s t h ↦ hq _ s t h) fun _ ↦
    keeps_pure true

/-- Where posting keeps the assertion too. -/
theorem keeps_postOne (hr : OpKeeps device I (.read .tsr))
    (hp : ∀ m s t, I s t → s.canTxQ.empty = false →
      I (s.exec (.postFrame m)) (t ++ [(.postFrame m, s)]))
    (hq : ∀ m, OpKeeps device I (.setTXRQ m)) :
    Triple (fun s t ↦ I s t ∧ s.canTxQ.empty = false) postOne fun _ ↦ I :=
  postOne_rule hs (W := fun _ ↦ I) (fun _ ↦ hs) hr (fun m s t h he _ ↦ hp m s t h he) hq

theorem keeps_canIfReceiveOutData (hr : OpKeeps device I .receiveOutData)
    (hu : ∀ g, OpKeeps device I (.usbReceive g)) : Keeps I canIfReceiveOutData := by
  refine keeps_bind (keeps_access hs hr _) fun accepting ↦ keeps_ite ?_ (keeps_pure ())
  exact keeps_bind (keeps_observe _) fun offset ↦ keeps_write hs (hu _)

/-- Rule for `CanIf_ReceiveOutData`: `W` holds from the condition found to hold until the
transfer is requested, at the offset and up to the end of the buffer. -/
theorem canIfReceiveOutData_rule {W J : Assertion State Op} (hw : Stable device W)
    (refuse : ∀ s t, I s t → s.accepting = false → J s (t ++ [(.receiveOutData, s)]))
    (test : ∀ s t, I s t → s.accepting = true → W s (t ++ [(.receiveOutData, s)]))
    (arm : ∀ s t, W s t → ∀ g,
      g = ⟨s.canIfOut.offset, u16 (sub32 canifOutDataSize s.canIfOut.offset)⟩ →
      J (s.exec (.usbReceive g)) (t ++ [(.usbReceive g, s)])) :
    Triple I canIfReceiveOutData fun _ ↦ J := by
  refine Triple.bind (R := fun go s t ↦ if go = true then W s t else J s t)
    (Triple.access _ hs fun s t h ↦ ?_) fun go ↦ Triple.ite (fun hgo ↦ ?_) fun hgo ↦
      Triple.pure () fun s t h ↦ by rwa [if_neg hgo] at h
  · split
    · next hgo => exact test s t h hgo
    · next hgo => exact refuse s t h (by simpa using hgo)
  · refine Triple.bind (R := fun offset s t ↦ W s t ∧ s.canIfOut.offset = offset)
      (Triple.observe fun s t h ↦ ⟨by rwa [if_pos hgo] at h, rfl⟩) fun offset ↦ ?_
    refine Triple.access _ (fun e s t h ↦ ⟨hw e s t h.1, ?_⟩) fun s t h ↦ ?_
    · exact (congrArg _ (s.exec_event e).2.1).trans h.2
    · exact arm s t h.1 _ (by rw [h.2])

theorem keeps_abortMailboxes (ha : ∀ m, OpKeeps device I (.setABRQ m)) (ms : List (Fin 3)) :
    Keeps I (abortMailboxes ms) := by
  induction ms with
  | nil => exact keeps_pure ()
  | cons m ms ih => exact keeps_bind (keeps_write hs (ha m)) fun _ ↦ ih

/-- After the loop of `Can_BusError` all requests are being aborted. -/
theorem abortMailboxes_rule (ha : ∀ m, OpKeeps device I (.setABRQ m)) :
    Triple I (abortMailboxes (List.finRange 3))
      fun _ s t ↦ I s t ∧ ∀ r ∈ s.can.tx.requests, r.aborting = true := by
  have loop (ms : List (Fin 3)) :
      Triple (fun s t ↦ I s t ∧ ∀ r ∈ s.can.tx.requests, r.mailbox ∉ ms → r.aborting = true)
        (abortMailboxes ms) fun _ s t ↦ I s t ∧ ∀ r ∈ s.can.tx.requests, r.aborting = true := by
    induction ms with
    | nil => exact Triple.pure () fun s t h ↦ ⟨h.1, fun r hr ↦ h.2 r hr List.not_mem_nil⟩
    | cons m ms ih =>
      refine Triple.bind (Triple.access _ (fun e s t h ↦
        ⟨hs e s t h.1, fun r hr ↦ h.2 r (s.requests_event e hr)⟩) fun s t h ↦
          ⟨ha m s t h.1, fun r hr hm ↦ ?_⟩) fun _ ↦ ih
      obtain ⟨r, hr', rfl⟩ := List.mem_map.mp hr
      rw [Request.mailbox_abort] at hm
      unfold Request.abort
      split
      · rfl
      · next hne => exact h.2 r hr' (List.not_mem_cons_of_ne_of_not_mem hne hm)
  exact (loop _).pre fun s t h ↦ ⟨h, fun r _ hm ↦ absurd (List.mem_finRange _) hm⟩

/-- Rule for `Can_BusError`: `R` holds until `ERRI` is cleared, and `A` while transmission is
aborted. -/
theorem canBusError_rule {R A : Assertion State Op} (hR : Stable device R) (hA : Stable device A)
    (esr : OpKeeps device I (.read .esr))
    (report : ∀ msg, msg.length ≠ 1 → ∀ s t, I s t →
      R (s.exec (.addMessage msg)) (t ++ [(.addMessage msg, s)]))
    (skip : ∀ s t, I s t → R s t)
    (clear : ∀ s t, R s t → I (s.exec .clearERRI) (t ++ [(.clearERRI, s)]))
    (block : ∀ s t, I s t → A s t) (abort : ∀ m, OpKeeps device A (.setABRQ m))
    (reset : ∀ s t, A s t → (∀ r ∈ s.can.tx.requests, r.aborting = true) →
      I (s.exec .resetTxQ) (t ++ [(.resetTxQ, s)])) :
    Keeps I canBusError := by
  refine keeps_bind (keeps_access hs esr _) fun esr ↦ ?_
  have rest : Triple R (do
      write .clearERRI
      if esr &&& canErrorBlocking ≠ 0 then
        abortMailboxes (List.finRange 3)
        perform device .resetTxQ) fun _ ↦ I := by
    refine Triple.bind (Triple.access _ hR clear) fun _ ↦ keeps_ite ?_ (keeps_pure ())
    exact Triple.bind ((abortMailboxes_rule hA abort).pre block) fun _ ↦
      Triple.perform _ fun s t h ↦ reset s t h.1 h.2
  refine Triple.ite (fun _ ↦ ?_) fun _ ↦ rest.pre skip
  exact Triple.bind (Triple.access _ hs (report _ (by simp))) fun _ ↦ rest

theorem keeps_canBusError (hr : OpKeeps device I (.read .esr))
    (hm : ∀ msg, msg.length ≠ 1 → OpKeeps device I (.addMessage msg))
    (he : OpKeeps device I .clearERRI)
    (ha : ∀ m, OpKeeps device I (.setABRQ m)) (hq : OpKeeps device I .resetTxQ) :
    Keeps I canBusError :=
  canBusError_rule hs hs hs hr hm (fun _ _ h ↦ h) he (fun _ _ h ↦ h) ha fun s t h _ ↦ hq s t h

/-- Where only reports of errors keep the assertion. -/
theorem keeps_canBusError_reports (hr : OpKeeps device I (.read .esr))
    (hm : ∀ esr, esr &&& canEsrLec ≠ 0 → OpKeeps device I (.addMessage [canifBusError, esr]))
    (he : OpKeeps device I .clearERRI) (ha : ∀ m, OpKeeps device I (.setABRQ m))
    (hq : OpKeeps device I .resetTxQ) : Keeps I canBusError := by
  refine keeps_bind (keeps_access hs hr _) fun esr ↦ ?_
  have rest : Keeps I (do
      write .clearERRI
      if esr &&& canErrorBlocking ≠ 0 then
        abortMailboxes (List.finRange 3)
        perform device .resetTxQ) := by
    refine keeps_bind (keeps_write hs he) fun _ ↦ keeps_ite ?_ (keeps_pure ())
    exact keeps_bind (keeps_abortMailboxes hs ha _) fun _ ↦ keeps_perform hq
  refine Triple.ite (fun hesr ↦ ?_) fun _ ↦ rest
  exact keeps_bind (keeps_write hs (hm esr hesr)) fun _ ↦ rest

theorem keeps_receiveLoop (hr : OpKeeps device I (.read .rfr))
    (hx : OpKeeps device I (.read .rxFifo)) (stack : Nat → UInt8)
    (hm : ∀ rx, OpKeeps device I (.addMessage (receivedMsg stack rx)))
    (hf : OpKeeps device I .releaseFifo) : Keeps I (canFrameReceived stack) := by
  refine keeps_bind keeps_scheduled fun n ↦ ?_
  induction n + 4 with
  | zero => exact keeps_pure ()
  | succ n ih =>
    refine keeps_bind (keeps_access hs hr _) fun more ↦ keeps_ite ?_ (keeps_pure ())
    refine keeps_bind (keeps_access hs hx _) fun rx ↦ ?_
    exact keeps_bind (keeps_write hs (hm rx)) fun _ ↦ keeps_bind (keeps_write hs hf) fun _ ↦ ih

/-- Only acknowledgements are messages of one byte. -/
theorem keeps_canFrameReceived (hr : OpKeeps device I (.read .rfr))
    (hx : OpKeeps device I (.read .rxFifo))
    (hm : ∀ msg, msg.length ≠ 1 → OpKeeps device I (.addMessage msg))
    (hf : OpKeeps device I .releaseFifo)
    (stack : Nat → UInt8) : Keeps I (canFrameReceived stack) := by
  refine keeps_receiveLoop hs hr hx stack (fun rx ↦ hm _ ?_) hf
  rw [length_receivedMsg]
  split <;> omega

omit hs in
/-- The loop posts only while the queue is not empty. -/
theorem keeps_canPostFrames
    (h : Triple (fun s t ↦ I s t ∧ s.canTxQ.empty = false) postOne fun _ ↦ I) :
    Keeps I canPostFrames := by
  refine keeps_bind (keeps_observe _) fun n ↦ ?_
  induction n with
  | zero => exact keeps_pure ()
  | succ n ih =>
    refine Triple.bind (R := fun more s t ↦ I s t ∧ (more = true → s.canTxQ.empty = false))
      (Triple.observe fun s t hi ↦ ⟨hi, by simp⟩) fun more ↦ ?_
    refine Triple.ite (fun hm ↦ ?_) fun _ ↦ (keeps_pure ()).pre fun _ _ h ↦ h.1
    exact Triple.bind (h.pre fun _ _ hi ↦ ⟨hi.1, hi.2 hm⟩) fun posted ↦
      keeps_ite ih (keeps_pure ())

omit hs in
theorem keeps_canFrameSent (hc : ∀ m, Keeps I (scanMailbox m)) (hp : Keeps I canPostFrames)
    (hr : Keeps I canIfReceiveOutData) : Keeps I canFrameSent := by
  refine keeps_bind ?_ fun ok ↦ keeps_ite (keeps_bind hp fun _ ↦ hr) (keeps_pure ())
  generalize List.finRange 3 = ms
  generalize false = ok
  induction ms generalizing ok with
  | nil => exact keeps_pure ok
  | cons m ms ih => exact keeps_bind (hc m) fun sent ↦ ih _

omit hs in
/-- Rule for `Can_FrameSent`. `S` holds from the first acknowledgement on. -/
theorem canFrameSent_rule {S J : Assertion State Op}
    (first : ∀ m, Triple I (scanMailbox m) fun sent s t ↦ if sent = true then S s t else I s t)
    (more : ∀ m, Keeps S (scanMailbox m))
    (tail : Triple S (do canPostFrames; canIfReceiveOutData) fun _ ↦ J)
    (idle : ∀ s t, I s t → J s t) : Triple I canFrameSent fun _ ↦ J := by
  have scan (ms : List (Fin 3)) (ok : Bool) :
      Triple (fun s t ↦ if ok = true then S s t else I s t) (scanMailboxes ms ok)
        fun ok s t ↦ if ok = true then S s t else I s t := by
    induction ms generalizing ok with
    | nil => exact Triple.pure ok fun _ _ h ↦ h
    | cons m ms ih =>
      refine Triple.bind (R := fun sent s t ↦ if (ok || sent) = true then S s t else I s t) ?_
        fun sent ↦ ih _
      cases ok with
      | true => exact more m
      | false => exact first m
  refine Triple.bind ((scan _ false).pre fun _ _ h ↦ h) fun ok ↦ Triple.ite (fun hok ↦ ?_)
    fun hok ↦ Triple.pure () fun s t h ↦ idle s t (by rwa [if_neg hok] at h)
  exact tail.pre fun _ _ h ↦ by rwa [if_pos hok] at h

omit hs in
theorem keeps_outCompletion (hd : ∀ b, OpKeeps device I (.deliver b))
    (hn : ∀ i, OpKeeps device I (.sentinel i))
    (hh : ∀ msg length, OpKeeps device I (.handleRequest msg length))
    (ht : OpKeeps device I .stop)
    (hf : ∀ pbuf length, OpKeeps device I (.moveFragment pbuf length))
    (hp : Keeps I canPostFrames) (hr : Keeps I canIfReceiveOutData) (bytes : List UInt8) :
    Keeps I (outCompletion bytes) := by
  have loop (fuel pbuf length : Nat) : Keeps I (outLoop fuel pbuf length) := by
    induction fuel generalizing pbuf length with
    | zero => exact keeps_pure _
    | succ fuel ih =>
      have stop : Keeps I (do
          perform device .stop
          return none : Firmware (Option (Nat × Nat))) :=
        keeps_bind (keeps_perform ht) fun _ ↦ keeps_pure _
      refine keeps_bind (keeps_observe _) fun n ↦ keeps_ite (keeps_ite stop ?_) (keeps_pure _)
      exact keeps_bind (keeps_call (hh _ _) _) fun _ ↦ keeps_ite (ih _ _) stop
  refine keeps_bind (keeps_observe _) fun armed ↦ ?_
  cases armed with
  | none => exact keeps_pure ()
  | some g =>
    refine keeps_ite (keeps_bind (keeps_perform (hd _)) fun _ ↦ ?_) (keeps_pure ())
    refine keeps_bind (keeps_observe _) fun offset ↦ keeps_bind (keeps_perform (hn _)) fun _ ↦ ?_
    refine keeps_bind (loop _ _ _) fun r ↦ ?_
    cases r with
    | none => exact keeps_pure ()
    | some r => exact keeps_bind (keeps_perform (hf _ _)) fun _ ↦ keeps_bind hp fun _ ↦ hr

/-- The trace of a session starts when the peripheral has been reset. -/
theorem keeps_reset (h : ∀ s t, I s t → I (s.exec .resetCan) []) {x : Firmware Unit}
    (hx : Keeps I x) : Keeps I (do write .resetCan; restart; x) :=
  Triple.bind (R := fun _ s _ ↦ I s []) (Triple.access _ hs h) fun _ ↦
    Triple.bind (Triple.restart fun _ _ h ↦ h) fun _ ↦ hx

theorem keeps_canIfOpen (h : ∀ s t, I s t → I (s.exec .resetCan) [])
    (hc : OpKeeps device I .canStart) (he : OpKeeps device I .emptyBuffers)
    (hr : Keeps I canIfReceiveOutData) (bitrate init : Bool) :
    Keeps I (canIfOpen bitrate init) := by
  refine keeps_reset hs h (keeps_ite ?_ (keeps_pure ()))
  refine keeps_bind (keeps_write hs hc) fun _ ↦ keeps_ite ?_ (keeps_pure ())
  exact keeps_bind (keeps_perform he) fun _ ↦ hr

/-- Rule for a successful `CanIf_Open`: `R` holds where the trace starts again, `S` where the
peripheral is started, and `E` where the buffers are empty. -/
theorem canIfOpen_rule {R S E J : Assertion State Op} (hR : Stable device R)
    (reset : ∀ s t, I s t → R (s.exec .resetCan) [])
    (start : ∀ s t, R s t → S (s.exec .canStart) (t ++ [(.canStart, s)]))
    (empty : ∀ s t, S s t → E (s.exec .emptyBuffers) (t ++ [(.emptyBuffers, s)]))
    (receive : Triple E canIfReceiveOutData fun _ ↦ J) :
    Triple I (canIfOpen true true) fun _ ↦ J := by
  refine Triple.bind (R := fun _ s _ ↦ R s []) (Triple.access _ hs reset) fun _ ↦ ?_
  refine Triple.bind (R := fun _ ↦ R) (Triple.restart fun _ _ h ↦ h) fun _ ↦ ?_
  refine Triple.ite (fun _ ↦ ?_) (by simp)
  refine Triple.bind (R := fun _ ↦ S) (Triple.access _ hR start) fun _ ↦ ?_
  refine Triple.ite (fun _ ↦ ?_) (by simp)
  exact Triple.bind (R := fun _ ↦ E) (Triple.perform _ empty) fun _ ↦ receive

/-- Nothing but events. -/
def OnlyEvents (t : Log) : Prop := ∀ x ∈ t, ∃ e, x.1 = .event e

omit hs in
/-- They leave no mark that only the firmware's operations leave. -/
theorem OnlyEvents.flatMap {β : Type} {t : Log} (h : OnlyEvents t) {f : Op × State → List β}
    (hf : ∀ e s, f (.event e, s) = []) : t.flatMap f = [] := by
  rw [List.flatMap_eq_nil_iff]
  rintro ⟨o, s⟩ hx
  obtain ⟨e, rfl⟩ := h _ hx
  exact hf e s

/-- Rule for a `CanIf_Open` that could set the bit rate. `E` holds from the reset on, while
the trace has nothing but events, and `S` where the peripheral is started. -/
theorem canIfOpen_begin {E S J : Assertion State Op} {init : Bool} (hE : Stable device E)
    (reset : ∀ s t, I s t → E (s.exec .resetCan) [])
    (start : ∀ s t, E s t → OnlyEvents t → S (s.exec .canStart) (t ++ [(.canStart, s)]))
    (failed : init = false → ∀ s t, S s t → J s t)
    (empty : init = true → ∀ s t, S s t → J (s.exec .emptyBuffers) (t ++ [(.emptyBuffers, s)]))
    (receive : Keeps J canIfReceiveOutData) : Triple I (canIfOpen true init) fun _ ↦ J := by
  have stable : Stable device fun s t ↦ E s t ∧ OnlyEvents t := fun e s t h ↦
    ⟨hE e s t h.1, List.forall_mem_append.mpr ⟨h.2, List.forall_mem_singleton.mpr ⟨e, rfl⟩⟩⟩
  refine Triple.bind (R := fun _ s _ ↦ E s []) (Triple.access _ hs reset) fun _ ↦ ?_
  refine Triple.bind (R := fun _ s t ↦ E s t ∧ OnlyEvents t)
    (Triple.restart fun _ _ h ↦ ⟨h, by simp [OnlyEvents]⟩) fun _ ↦ ?_
  refine Triple.ite (fun _ ↦ ?_) (by simp)
  refine Triple.bind (R := fun _ ↦ S) (Triple.access _ stable fun s t h ↦ start s t h.1 h.2)
    fun _ ↦ Triple.ite (fun hi ↦ ?_) fun hi ↦ Triple.pure () (failed (by simpa using hi))
  exact Triple.bind (Triple.perform _ (empty hi)) fun _ ↦ receive

theorem keeps_canClose (h : ∀ s t, I s t → I (s.exec .resetCan) [])
    (hd : OpKeeps device I .dropTransfers) (dropped : Bool) : Keeps I (canClose dropped) :=
  keeps_reset hs h (keeps_ite (keeps_perform hd) (keeps_pure ()))

end Keeps

/-! ### Runs -/

/-- What an assertion needs to survive everything but opening and closing. -/
structure Kept (I : Assertion State Op) : Prop where
  stable : Stable device I
  tsr : OpKeeps device I (.read .tsr)
  rfr : OpKeeps device I (.read .rfr)
  fifo : OpKeeps device I (.read .rxFifo)
  esr : OpKeeps device I (.read .esr)
  message : ∀ msg, msg.length ≠ 1 → OpKeeps device I (.addMessage msg)
  release : OpKeeps device I .releaseFifo
  completion : OpKeeps device I .epInComplete
  out : ∀ bytes, Keeps I (outCompletion bytes)
  sent : Keeps I canFrameSent
  error : Keeps I canBusError

/-- What is kept one by one is kept together. -/
theorem Kept.and {I J : Assertion State Op} (h : Kept I) (h' : Kept J) :
    Kept fun s t ↦ I s t ∧ J s t where
  stable := h.stable.and h'.stable
  tsr s t hp := ⟨h.tsr s t hp.1, h'.tsr s t hp.2⟩
  rfr s t hp := ⟨h.rfr s t hp.1, h'.rfr s t hp.2⟩
  fifo s t hp := ⟨h.fifo s t hp.1, h'.fifo s t hp.2⟩
  esr s t hp := ⟨h.esr s t hp.1, h'.esr s t hp.2⟩
  message msg hl s t hp := ⟨h.message msg hl s t hp.1, h'.message msg hl s t hp.2⟩
  release s t hp := ⟨h.release s t hp.1, h'.release s t hp.2⟩
  completion s t hp := ⟨h.completion s t hp.1, h'.completion s t hp.2⟩
  out bytes := (h.out bytes).and (h'.out bytes)
  sent := h.sent.and h'.sent
  error := h.error.and h'.error

/-- Neither `CanIf_Open` nor `Can_Close`. -/
def Action.inSession : Action → Bool
  | canIfOpen _ _ | canClose _ => false
  | _ => true

/-- Handlers other than opening and closing keep what their parts keep. -/
theorem keeps_program {I : Assertion State Op} (stable : Stable device I)
    (tsr : OpKeeps device I (.read .tsr)) (rfr : OpKeeps device I (.read .rfr))
    (esr : OpKeeps device I (.read .esr)) (completion : OpKeeps device I .epInComplete)
    (received : ∀ stack, Keeps I (canFrameReceived stack))
    (out : ∀ bytes, Keeps I (outCompletion bytes)) (sent : Keeps I canFrameSent)
    (error : Keeps I canBusError) (a : Action) (ha : a.inSession = true) :
    Keeps I a.program := by
  cases a with
  | canIfOpen | canClose => contradiction
  | epOutComplete bytes => exact out bytes
  | epInComplete => exact keeps_write stable completion
  | frameReceived stack => exact received stack
  | frameSent => exact sent
  | busError => exact error
  | event e => exact keeps_perform (stable e)
  | canIrq stack =>
    have last : Keeps I (do
        if ← access device (.read .esr) fun s ↦ s.can.esr &&& canEsrAny != 0 then canBusError) :=
      keeps_bind (keeps_access stable esr _) fun _ ↦ keeps_ite error (keeps_pure ())
    refine keeps_bind (keeps_access stable tsr _) fun _ ↦ ?_
    refine keeps_ite (keeps_bind sent fun _ ↦ ?rest) ?rest
    refine keeps_bind (keeps_access stable rfr _) fun _ ↦ ?_
    exact keeps_ite (keeps_bind (received stack) fun _ ↦ last) last

/-- Handlers other than opening and closing keep what is kept. -/
theorem Kept.program {I : Assertion State Op} (h : Kept I) (a : Action)
    (ha : a.inSession = true) : Keeps I a.program :=
  keeps_program h.stable h.tsr h.rfr h.esr h.completion
    (keeps_canFrameReceived h.stable h.rfr h.fifo h.message h.release) h.out h.sent h.error a ha

/-- What is kept holds at the end of every session. -/
theorem Kept.session {I : Assertion State Op} (h : Kept I) {c : Config}
    (hc : I c.state c.trace) (steps : List Step)
    (ha : ∀ a ∈ steps, a.action.inSession = true) :
    I (run c steps).state (run c steps).trace := by
  refine keeps_run _ ?_ c hc
  intro x hx
  obtain ⟨a, hm, rfl⟩ := List.mem_map.mp hx
  exact keeps_bind (keeps_schedule _) fun _ ↦ h.program a.action (ha a hm)

/-- Neither operations of `CanIf_Open` nor of `Can_Close`. -/
def Op.inSession : Op → Bool
  | resetCan | canStart | emptyBuffers | dropTransfers => false
  | _ => true

/-- Only `Can_BusError` resets the queue. -/
theorem keeps_of_ops {I : Assertion State Op}
    (h : ∀ o : Op, o.inSession = true → o ≠ .resetTxQ → OpKeeps device I o) :
    (∀ bytes, Keeps I (outCompletion bytes)) ∧ Keeps I canFrameSent := by
  have stable : Stable device I := fun _ ↦ h _ rfl nofun
  have receive : Keeps I canIfReceiveOutData :=
    keeps_canIfReceiveOutData stable (h _ rfl nofun) fun _ ↦ h _ rfl nofun
  have post : Keeps I canPostFrames := keeps_canPostFrames (keeps_postOne stable (h _ rfl nofun)
    (fun m s t hi _ ↦ h (.postFrame m) rfl nofun s t hi) fun _ ↦ h _ rfl nofun)
  constructor
  · exact keeps_outCompletion (fun _ ↦ h _ rfl nofun) (fun _ ↦ h _ rfl nofun)
      (fun _ _ ↦ h _ rfl nofun) (h _ rfl nofun) (fun _ _ ↦ h _ rfl nofun) post receive
  · exact keeps_canFrameSent (keeps_scanMailbox stable (fun _ _ ↦ h _ rfl nofun)
      (fun _ ↦ h _ rfl nofun) fun _ ↦ h _ rfl nofun) post receive

/-- An assertion that each operation of a session keeps needs nothing else. -/
theorem kept_of_ops {I : Assertion State Op}
    (h : ∀ o : Op, o.inSession = true → OpKeeps device I o) : Kept I where
  stable _ := h _ rfl
  tsr := h _ rfl
  rfr := h _ rfl
  fifo := h _ rfl
  esr := h _ rfl
  message _ _ := h _ rfl
  release := h _ rfl
  completion := h _ rfl
  out := (keeps_of_ops fun o ho _ ↦ h o ho).1
  sent := (keeps_of_ops fun o ho _ ↦ h o ho).2
  error := keeps_canBusError (fun _ ↦ h _ rfl) (h _ rfl) (fun _ _ ↦ h _ rfl) (h _ rfl)
    (fun _ ↦ h _ rfl) (h _ rfl)

/-- In a session the trace only grows. -/
theorem trace_session (c : Config) (steps : List Step)
    (ha : ∀ a ∈ steps, a.action.inSession = true) : c.trace <+: (run c steps).trace := by
  have kept : Kept fun _ t ↦ c.trace <+: t :=
    kept_of_ops fun _ _ _ _ h ↦ h.trans (List.prefix_append _ _)
  exact kept.session (List.prefix_refl _) steps ha

/-- What every handler keeps holds at the end of every run. -/
theorem keeps_anyRun {I : Assertion State Op} (h : ∀ a : Action, Keeps I a.program) {c : Config}
    (hc : I c.state c.trace) (steps : List Step) :
    I (run c steps).state (run c steps).trace := by
  refine keeps_run _ ?_ c hc
  intro x hx
  obtain ⟨a, -, rfl⟩ := List.mem_map.mp hx
  exact keeps_bind (keeps_schedule _) fun _ ↦ h a.action

/-- What is kept, also by opening and closing, holds at the end of every run. -/
theorem Kept.run {I : Assertion State Op} (h : Kept I) (ho : ∀ b i, Keeps I (canIfOpen b i))
    (hcl : ∀ d, Keeps I (canClose d)) {c : Config} (hc : I c.state c.trace)
    (steps : List Step) : I (run c steps).state (run c steps).trace := by
  refine keeps_anyRun (fun a ↦ ?_) hc steps
  cases a with
  | canIfOpen b i => exact ho b i
  | canClose d => exact hcl d
  | _ => exact h.program _ rfl

/-- What all operations keep, and what does not depend on the trace before, holds at the end of
every run. -/
theorem run_of_ops {I : Assertion State Op} (h : ∀ o, OpKeeps device I o)
    (restart : ∀ s t, I s t → I s []) {c : Config} (hc : I c.state c.trace)
    (steps : List Step) : I (CanDybug.run c steps).state (CanDybug.run c steps).trace := by
  have kept : Kept I := kept_of_ops fun o _ ↦ h o
  have reset (s : State) (t : Log) (hi : I s t) : I (s.exec .resetCan) [] :=
    restart _ _ (h .resetCan s t hi)
  exact kept.run (keeps_canIfOpen kept.stable reset (h _) (h _)
    (keeps_canIfReceiveOutData kept.stable (h _) fun _ ↦ h _))
    (keeps_canClose kept.stable reset (h _)) hc steps

end CanDybug
