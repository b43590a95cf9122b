import CanDybug.Ack.Account
import CanDybug.Frame.Message
import CanDybug.In.Capacity
import CanDybug.Rx.Fifo

/-!
# From the bus to the host

Everything that `CanIf_AddMessage` is offered is a message of the `README.md` table: of a frame
from the FIFO, of a frame transmitted, or of an error status. Put together here with the FIFO in
front of it and the IN pipe behind it: what the host reads, wherever it is in the stream, are
frames that arrived, in their order, and acknowledgements of frames transmitted.
-/

namespace CanDybug

open Base

/-- The data length of a received frame is at most eight, and zero for a remote request. -/
def RxMailBox.Standard (rx : RxMailBox) : Prop :=
  dlc rx.RDTR ≤ 8 ∧ (rx.RIR &&& canIdtypeStdRtr ≠ 0 → dlc rx.RDTR = 0)

instance decidableStandard (rx : RxMailBox) : Decidable rx.Standard :=
  inferInstanceAs (Decidable (_ ∧ (_ → _)))

/-- The frame that arrived in these registers. -/
def Frame.ArrivedIn (f : Frame) (rx : RxMailBox) : Prop := ∃ le, rx.frame le = f

/-! ### What is offered -/

/-- Put together from a frame, an acknowledgement, or the report of an error status that has
been read. -/
inductive Spoken (t : Log) : List UInt8 → Prop
  | frame (stack : Nat → UInt8) (rx : RxMailBox) : Spoken t (receivedMsg stack rx)
  | sent (type : FrameType) : Spoken t [canifAckFlag ||| type.code]
  | busError (s : State) (read : (Op.read .esr, s) ∈ t) (code : s.can.esr &&& canEsrLec ≠ 0) :
    Spoken t [canifBusError, s.can.esr]

theorem Spoken.mono {t t' : Log} (h : t ⊆ t') {msg : List UInt8} (hm : Spoken t msg) :
    Spoken t' msg := by
  cases hm with
  | frame stack rx => exact .frame stack rx
  | sent type => exact .sent type
  | busError s read code => exact .busError s (h read) code

/-- Every message offered is one of these. -/
def SpokenLog (_ : State) (t : Log) : Prop := ∀ msg ∈ offered t, Spoken t msg

theorem SpokenLog.concat {s s' : State} {t : Log} (h : SpokenLog s t) {o : Op}
    (ho : ∀ msg ∈ o.offered, Spoken t msg) : SpokenLog s' (t ++ [(o, s)]) := by
  intro msg hm
  rw [offered_concat] at hm
  apply Spoken.mono (List.subset_append_left _ _)
  exact (List.mem_append.mp hm).elim (h msg) (ho msg)

/-- Operations that offer nothing. -/
theorem SpokenLog.keep {o : Op} (ho : o.offered = []) : OpKeeps device SpokenLog o :=
  fun _ _ h ↦ h.concat (by simp [ho])

theorem SpokenLog.says {msg : List UInt8} (hm : ∀ t, Spoken t msg) :
    OpKeeps device SpokenLog (.addMessage msg) :=
  fun _ t h ↦ h.concat (by simpa [Op.offered] using hm t)

theorem spokenLog_stable : Stable device SpokenLog := fun _ ↦ SpokenLog.keep rfl

private theorem spokenLog_receive : Keeps SpokenLog canIfReceiveOutData :=
  keeps_canIfReceiveOutData spokenLog_stable (SpokenLog.keep rfl) fun _ ↦ SpokenLog.keep rfl

private theorem spokenLog_canPostFrames : Keeps SpokenLog canPostFrames :=
  keeps_canPostFrames (keeps_postOne spokenLog_stable (SpokenLog.keep rfl)
    (fun m s t h _ ↦ SpokenLog.keep (o := .postFrame m) rfl s t h) fun _ ↦ SpokenLog.keep rfl)

private theorem spokenLog_canFrameSent : Keeps SpokenLog canFrameSent := by
  refine keeps_canFrameSent (keeps_scanMailbox spokenLog_stable (fun _ _ ↦ SpokenLog.keep rfl)
    (fun tir ↦ SpokenLog.says fun t ↦ ?_) fun _ ↦ SpokenLog.keep rfl) spokenLog_canPostFrames
    spokenLog_receive
  obtain ⟨type, ht⟩ := typeByte_code tir
  rw [ht]
  exact .sent type

/-- The error status reported is the one read at the beginning. -/
private theorem spokenLog_canBusError : Keeps SpokenLog canBusError := by
  have rest (esr : UInt8) : Keeps SpokenLog (do
      write .clearERRI
      if esr &&& canErrorBlocking ≠ 0 then
        abortMailboxes (List.finRange 3)
        perform device .resetTxQ) := by
    refine keeps_bind (keeps_write spokenLog_stable (SpokenLog.keep rfl)) fun _ ↦
      keeps_ite ?_ (keeps_pure ())
    exact keeps_bind (keeps_abortMailboxes spokenLog_stable (fun _ ↦ SpokenLog.keep rfl) _)
      fun _ ↦ keeps_perform (SpokenLog.keep rfl)
  have stable (esr : UInt8) : Stable device fun s t ↦ SpokenLog s t ∧
      ∃ s', (Op.read .esr, s') ∈ t ∧ s'.can.esr = esr := fun e s t ⟨h, s', hm, he⟩ ↦
    ⟨spokenLog_stable e s t h, s', List.mem_append_left _ hm, he⟩
  refine Triple.bind (R := fun esr s t ↦ SpokenLog s t ∧
    ∃ s', (Op.read .esr, s') ∈ t ∧ s'.can.esr = esr) ?_ fun esr ↦ Triple.ite (fun hcode ↦ ?_)
      fun _ ↦ (rest esr).pre fun _ _ h ↦ h.1
  · exact Triple.access _ spokenLog_stable fun s t h ↦
      ⟨SpokenLog.keep (o := .read .esr) rfl s t h, s, by simp, rfl⟩
  · refine Triple.bind (R := fun _ ↦ SpokenLog) (Triple.access _ (stable esr) ?_) fun _ ↦ rest esr
    rintro s t ⟨h, s', hm, rfl⟩
    exact h.concat (by simpa [Op.offered] using Spoken.busError s' hm hcode)

private theorem spokenLog_program (a : Action) : Keeps SpokenLog a.program := by
  have reset (s : State) (t : Log) (_ : SpokenLog s t) : SpokenLog (s.exec .resetCan) [] := by
    simp [SpokenLog, offered]
  cases a with
  | canIfOpen bitrate init =>
    exact keeps_canIfOpen spokenLog_stable reset (SpokenLog.keep rfl) (SpokenLog.keep rfl)
      spokenLog_receive bitrate init
  | canClose dropped => exact keeps_canClose spokenLog_stable reset (SpokenLog.keep rfl) dropped
  | _ =>
    exact keeps_program spokenLog_stable (SpokenLog.keep rfl) (SpokenLog.keep rfl)
      (SpokenLog.keep rfl) (SpokenLog.keep rfl)
      (fun stack ↦ keeps_receiveLoop spokenLog_stable (SpokenLog.keep rfl) (SpokenLog.keep rfl)
        stack (fun rx ↦ SpokenLog.says fun _ ↦ .frame stack rx) (SpokenLog.keep rfl))
      (keeps_outCompletion (fun _ ↦ SpokenLog.keep rfl) (fun _ ↦ SpokenLog.keep rfl)
        (fun _ _ ↦ SpokenLog.keep rfl) (SpokenLog.keep rfl) (fun _ _ ↦ SpokenLog.keep rfl)
        spokenLog_canPostFrames spokenLog_receive)
      spokenLog_canFrameSent spokenLog_canBusError _ rfl

theorem spokenLog_run (mailboxes : Fin 3 → TxMailBox) (txq : Nat → TxMailBox)
    (inb outb : Nat → UInt8) (steps : List Step) :
    ∀ msg ∈ offered (run (boot mailboxes txq inb outb) steps).trace,
      Spoken (run (boot mailboxes txq inb outb) steps).trace msg :=
  keeps_anyRun spokenLog_program (c := boot mailboxes txq inb outb)
    (by simp [SpokenLog, offered, boot]) steps

/-! ### What the host makes of it -/

/-- The messages offered, decoded by the table. -/
def told (t : Log) : List DeviceMessage := (offered t).filterMap decodeMessage

private theorem decode_received (stack : Nat → UInt8) (rx : RxMailBox) :
    decodeMessage (receivedMsg stack rx) = (decodeBody (receivedMsg stack rx)).map .frame := by
  apply decodeMessage_long
  rw [length_receivedMsg]
  split <;> omega

private theorem told_op {t : Log} {o : Op} (h : ∀ msg ∈ o.offered, Spoken t msg) (s : State) :
    (o.offered.filterMap decodeMessage).flatMap DeviceMessage.frames =
        o.frameMessage.filterMap decodeBody ∧
      (o.offered.filterMap decodeMessage).flatMap DeviceMessage.acks = ackedBy (o, s) := by
  cases o with
  | addMessage msg =>
    have hm := h msg (List.mem_singleton.mpr rfl)
    change ([msg].filterMap decodeMessage).flatMap _ = _ ∧
      ([msg].filterMap decodeMessage).flatMap _ = _
    cases hm with
    | frame stack rx =>
      have hl := length_receivedMsg rx stack
      have ha : ackedBy (.addMessage (receivedMsg stack rx), s) = [] := by
        obtain ⟨rest, hr⟩ := receivedMsg_cons rx stack
        rw [hr] at hl ⊢
        cases rest with
        | nil =>
          simp only [List.length_singleton] at hl
          split at hl <;> omega
        | cons => rfl
      rw [frameMessage_received, ha, List.filterMap_cons, List.filterMap_cons, decode_received]
      cases decodeBody (receivedMsg stack rx) <;> exact ⟨rfl, rfl⟩
    | sent type =>
      rw [frameMessage_ack, List.filterMap_cons_some (decodeMessage_sent type)]
      exact ⟨rfl, rfl⟩
    | busError s' =>
      rw [frameMessage_busError, List.filterMap_cons_some (decodeMessage_busError _)]
      exact ⟨rfl, rfl⟩
  | _ => exact ⟨rfl, rfl⟩

/-- Told are the messages of frames, and the acknowledgements. -/
theorem told_parts {t : Log} (h : ∀ msg ∈ offered t, Spoken t msg) :
    (told t).flatMap DeviceMessage.frames = (frameMessages t).filterMap decodeBody ∧
      (told t).flatMap DeviceMessage.acks = acks t := by
  have hop (e : Op × State) (he : e ∈ t) := told_op (t := t) (o := e.1)
    (fun msg hm ↦ h msg (List.mem_flatMap_of_mem he hm)) e.2
  rw [told, offered, List.filterMap_flatMap, List.flatMap_assoc, List.flatMap_assoc,
    frameMessages, List.filterMap_flatMap]
  exact ⟨List.flatMap_congr fun e he ↦ (hop e he).1, List.flatMap_congr fun e he ↦ (hop e he).2⟩

/-- Messages of frames decode to the frames. -/
theorem frames_turned {rxs : List RxMailBox} {msgs : List (List UInt8)}
    (h : List.Forall₂ RxMailBox.TurnedInto rxs msgs) (hs : ∀ rx ∈ rxs, rx.Standard) :
    (∀ msg ∈ msgs, (decodeBody msg).isSome = true) ∧
      List.Forall₂ Frame.ArrivedIn (msgs.filterMap decodeBody) rxs := by
  induction h with
  | nil => exact ⟨by simp, .nil⟩
  | @cons rx msg rxs msgs hr _ ih =>
    obtain ⟨⟨le, hremote⟩, hrest⟩ := List.forall_mem_cons.mp hs
    obtain ⟨hall, hframes⟩ := ih hrest
    obtain ⟨stack, rfl⟩ := hr
    have hd : decodeBody (receivedMsg stack rx) = some (rx.frame le) := by
      rw [receivedMsg_eq rx stack le hremote, decodeBody_body]
    refine ⟨List.forall_mem_cons.mpr ⟨by rw [hd]; rfl, hall⟩, ?_⟩
    rw [List.filterMap_cons_some hd]
    exact .cons ⟨le, rfl⟩ hframes

/-- If all frames have a documented data length, the host can decode all that is offered. -/
theorem decodes_offered {t : Log} (h : ∀ msg ∈ offered t, Spoken t msg)
    (hf : ∀ msg ∈ frameMessages t, (decodeBody msg).isSome = true) :
    ∀ msg ∈ offered t, (decodeMessage msg).isSome = true := by
  intro msg hm
  obtain ⟨⟨o, s⟩, he, ho⟩ := List.mem_flatMap.mp hm
  cases h msg hm with
  | sent type =>
    rw [decodeMessage_sent]
    rfl
  | busError s' =>
    rw [decodeMessage_busError]
    rfl
  | frame stack rx =>
    have hin : receivedMsg stack rx ∈ frameMessages t := by
      refine List.mem_flatMap.mpr ⟨(o, s), he, ?_⟩
      cases o with
      | addMessage msg =>
        obtain rfl := List.mem_singleton.mp ho
        rw [frameMessage_received]
        exact List.mem_singleton.mpr rfl
      | _ => contradiction
    rw [decode_received, Option.isSome_map]
    exact hf _ hin

/-- Reports of errors tell an error status that has been read. -/
theorem told_busError {t : Log} (h : ∀ msg ∈ offered t, Spoken t msg) {info : UInt8}
    (hm : DeviceMessage.busError info ∈ told t) :
    info &&& canEsrLec ≠ 0 ∧ ∃ s, (Op.read .esr, s) ∈ t ∧ s.can.esr = info := by
  obtain ⟨msg, hmsg, hd⟩ := List.mem_filterMap.mp hm
  cases h msg hmsg with
  | frame stack rx =>
    rw [decode_received] at hd
    obtain ⟨f, -, hf⟩ := Option.map_eq_some_iff.mp hd
    contradiction
  | sent type =>
    rw [decodeMessage_sent] at hd
    cases hd
  | busError s read code =>
    rw [decodeMessage_busError] at hd
    cases hd
    exact ⟨code, s, read, rfl⟩

/-! ### Bus, FIFO, pipe and host -/

/-- What is told are the frames read from the FIFO, and the acknowledgements offered. -/
theorem told_run (mailboxes : Fin 3 → TxMailBox) (txq : Nat → TxMailBox) (inb outb : Nat → UInt8)
    (steps : List Step) {c : Config} (hc : c = run (boot mailboxes txq inb outb) steps)
    (standard : ∀ rx ∈ arrived c.trace, rx.Standard) :
    List.Forall₂ Frame.ArrivedIn ((told c.trace).flatMap DeviceMessage.frames)
        (unloaded c.trace) ∧
      (told c.trace).flatMap DeviceMessage.acks = acks c.trace ∧
      ∀ msg ∈ offered c.trace, (decodeMessage msg).isSome = true := by
  have hspoken : ∀ msg ∈ offered c.trace, Spoken c.trace msg :=
    hc ▸ spokenLog_run mailboxes txq inb outb steps
  have hfifo : FifoLog c.state c.trace := hc ▸ fifoLog_run mailboxes txq inb outb steps
  obtain ⟨hdec, hframes⟩ :=
    frames_turned hfifo.2.2 fun rx hrx ↦ standard rx (hfifo.sublist.subset hrx)
  obtain ⟨hf, ha⟩ := told_parts hspoken
  exact ⟨hf ▸ hframes, ha, decodes_offered hspoken hdec⟩

/-- With no more than 256 bytes on their way at a time, the host that has fetched all of them has
read all that was told. -/
theorem told_all (mailboxes : Fin 3 → TxMailBox) (txq : Nat → TxMailBox) (inb outb : Nat → UInt8)
    (before : List Step) (script : List (List Event)) {steps : List Step}
    (session : ∀ a ∈ steps, a.action.inSession = true) {c : Config}
    (hc : c = run (boot mailboxes txq inb outb)
      (before ++ [⟨.canIfOpen true true, script⟩] ++ steps))
    (idle : (run (boot mailboxes txq inb outb) before).state.canIfIn.transfer = none)
    (room : InRoom c.trace) (standard : ∀ rx ∈ arrived c.trace, rx.Standard)
    (read : c.state.canIfIn.remaining = []) :
    hostPipe.scan (fetched c.trace) = (told c.trace, .fragment []) := by
  obtain ⟨-, -, hdec⟩ := told_run mailboxes txq inb outb _ hc standard
  obtain ⟨hcap, hfetched⟩ :=
    capacity_session mailboxes txq inb outb before script session hc idle
  obtain ⟨proper, htaken⟩ := hcap.2.2 room
  replace hfetched := hfetched proper
  rw [read, List.append_nil, htaken] at hfetched
  have hscan := hostPipe.scan_stream (stream_encode hdec) []
  rw [List.append_nil, hostPipe.scan_nil, List.append_nil] at hscan
  exact hfetched ▸ hscan

/-- After a successful `CanIf_Open` with no transfer in flight, as long as the IN pipe is used
properly and all frames that arrive have a documented data length: whatever the host has fetched
is a sequence of messages of the table and the beginning of one more. The frames among them are
frames that arrived, in their order; the acknowledgements are those of different frames that have
been transmitted; and bus errors tell an error status with an error code, as read from the
peripheral. -/
theorem host_reads (mailboxes : Fin 3 → TxMailBox) (txq : Nat → TxMailBox)
    (inb outb : Nat → UInt8) (before : List Step) (script : List (List Event))
    (steps : List Step) (session : ∀ a ∈ steps, a.action.inSession = true) (c : Config)
    (hc : c = run (boot mailboxes txq inb outb)
      (before ++ [⟨.canIfOpen true true, script⟩] ++ steps))
    (idle : (run (boot mailboxes txq inb outb) before).state.canIfIn.transfer = none)
    (proper : ProperIn c.trace) (standard : ∀ rx ∈ arrived c.trace, rx.Standard) :
    ∃ ms rest, hostPipe.scan (fetched c.trace) = (ms, .fragment rest) ∧
      List.SublistForall₂ Frame.ArrivedIn (ms.flatMap DeviceMessage.frames) (arrived c.trace) ∧
      (ms.flatMap DeviceMessage.acks).Subperm ((transmitted c.trace).map ackByte) ∧
      ∀ info, DeviceMessage.busError info ∈ ms → info &&& canEsrLec ≠ 0 ∧
        ∃ s, (Op.read .esr, s) ∈ c.trace ∧ s.can.esr = info := by
  obtain ⟨hframes, hacks, hdec⟩ := told_run mailboxes txq inb outb _ hc standard
  have hfetched :=
    (capacity_session mailboxes txq inb outb before script session hc idle).2 proper
  have htaken := taken_sublist_offered c.trace
  obtain ⟨ms, rest, hscan, hms⟩ := hostPipe.scan_beginning
    (stream_encode fun msg hm ↦ hdec msg (htaken.subset hm)) ⟨_, hfetched⟩
  -- What the host reads is part of what is told.
  have hsub : ms.Sublist (told c.trace) := hms.sublist.trans (htaken.filterMap _)
  refine ⟨ms, rest, hscan, ?_, ?_, ?_⟩
  · have hs := sublistForall₂_of_sublist
      (List.sublistForall₂_iff.mpr ⟨_, hframes, List.Sublist.refl _⟩)
      (hsub.flatMap DeviceMessage.frames)
    obtain ⟨l, hl, hlu⟩ := List.sublistForall₂_iff.mp hs
    have hfifo : FifoLog c.state c.trace := hc ▸ fifoLog_run mailboxes txq inb outb _
    exact List.sublistForall₂_iff.mpr ⟨l, hl, hlu.trans hfifo.sublist⟩
  · have htally : TallyLog c.state c.trace := hc ▸ tally_run mailboxes txq inb outb _
    apply (hacks ▸ hsub.flatMap DeviceMessage.acks).subperm.trans
    refine (List.Sublist.subperm ?_).trans htally.subperm
    rw [List.append_assoc]
    exact List.sublist_append_left _ _
  · have hspoken : ∀ msg ∈ offered c.trace, Spoken c.trace msg :=
      hc ▸ spokenLog_run mailboxes txq inb outb _
    exact fun info hi ↦ told_busError hspoken (hsub.subset hi)

/-- Three frames arrive, the last while the first is being fetched; a frame is transmitted, and
an error follows. -/
def overheard : List Step :=
  [⟨.event (.rx ⟨0x20400000, 2, 0x0201, 0⟩), []⟩, ⟨.event (.rx ⟨0x00600002, 0, 0, 0⟩), []⟩,
    ⟨.canIrq fun _ ↦ 0, [[], [], [], [], [.rx ⟨0x0000001C, 1, 7, 0⟩], [.fetch 4]]⟩,
    ⟨.epOutComplete [4, 2, 0, 1], []⟩, ⟨.event (.txOk 0), []⟩, ⟨.event (.error 0x11), []⟩,
    ⟨.canIrq fun _ ↦ 0, []⟩, ⟨.event (.fetch 64), []⟩, ⟨.epInComplete, []⟩,
    ⟨.event (.fetch 14), []⟩]

/-- The host is still to read the error. -/
theorem host_reads_overheard :
    ∃ c : Config, c = run (boot (fun _ ↦ ⟨0, 0, 0, 0⟩) (fun _ ↦ ⟨0, 0, 0, 0⟩) (fun _ ↦ 0) fun _ ↦ 0)
        ([] ++ [⟨.canIfOpen true true, []⟩] ++ overheard) ∧
      ∃ ms rest, hostPipe.scan (fetched c.trace) = (ms, .fragment rest) ∧
        List.SublistForall₂ Frame.ArrivedIn (ms.flatMap DeviceMessage.frames) (arrived c.trace) ∧
        (ms.flatMap DeviceMessage.acks).Subperm ((transmitted c.trace).map ackByte) ∧
        ∀ info, DeviceMessage.busError info ∈ ms → info &&& canEsrLec ≠ 0 ∧
          ∃ s, (Op.read .esr, s) ∈ c.trace ∧ s.can.esr = info :=
  ⟨_, rfl, host_reads (fun _ ↦ ⟨0, 0, 0, 0⟩) (fun _ ↦ ⟨0, 0, 0, 0⟩) (fun _ ↦ 0) (fun _ ↦ 0) [] []
    overheard (by decide) _ rfl rfl (by decide +kernel) (by decide +kernel)⟩

/-- If in such a session no more than 256 bytes were ever on their way to the host, no frame was
overwritten in a full FIFO, and in the end nothing is left of the bytes, the FIFO is empty, and no
`TXOK` is flagged or has been lost: then the host has read every frame that arrived, in order, and
one acknowledgement for each frame transmitted. -/
theorem host_reads_all (mailboxes : Fin 3 → TxMailBox) (txq : Nat → TxMailBox)
    (inb outb : Nat → UInt8) (before : List Step) (script : List (List Event))
    (steps : List Step) (session : ∀ a ∈ steps, a.action.inSession = true) (c : Config)
    (hc : c = run (boot mailboxes txq inb outb)
      (before ++ [⟨.canIfOpen true true, script⟩] ++ steps))
    (idle : (run (boot mailboxes txq inb outb) before).state.canIfIn.transfer = none)
    (room : InRoom c.trace) (standard : ∀ rx ∈ arrived c.trace, rx.Standard)
    (read : c.state.canIfIn.remaining = []) (noOverrun : overrun c.trace = [])
    (drained : c.state.can.fifo = []) (settled : c.state.due = []) (kept : lost c.trace = []) :
    ∃ ms, hostPipe.scan (fetched c.trace) = (ms, .fragment []) ∧
      List.Forall₂ Frame.ArrivedIn (ms.flatMap DeviceMessage.frames) (arrived c.trace) ∧
      (ms.flatMap DeviceMessage.acks).Perm ((transmitted c.trace).map ackByte) := by
  obtain ⟨hframes, hacks, -⟩ := told_run mailboxes txq inb outb _ hc standard
  refine ⟨told c.trace, ?_, ?_, ?_⟩
  · exact told_all mailboxes txq inb outb before script session hc idle room standard read
  · -- All frames that arrived have been read.
    have hfifo : FifoLog c.state c.trace := hc ▸ fifoLog_run mailboxes txq inb outb _
    have hperm := hfifo.perm
    rw [drained, noOverrun, List.append_nil, List.append_nil] at hperm
    rwa [← hfifo.sublist.eq_of_length hperm.length_eq.symm]
  · have htally : TallyLog c.state c.trace := hc ▸ tally_run mailboxes txq inb outb _
    rw [TallyLog, Tally, kept, List.append_nil] at htally
    rw [hacks]
    rwa [show c.state.can.tx.due (fun _ ↦ true) = [] from settled, List.append_nil] at htally

/-- The same with the error fetched. -/
def overheardAll : List Step := overheard ++ [⟨.event (.fetch 64), []⟩, ⟨.epInComplete, []⟩]

/-- All three frames have been read, and the acknowledgement. -/
theorem host_reads_all_overheard :
    ∃ c : Config, c = run (boot (fun _ ↦ ⟨0, 0, 0, 0⟩) (fun _ ↦ ⟨0, 0, 0, 0⟩) (fun _ ↦ 0) fun _ ↦ 0)
        ([] ++ [⟨.canIfOpen true true, []⟩] ++ overheardAll) ∧
      ∃ ms, hostPipe.scan (fetched c.trace) = (ms, .fragment []) ∧
        List.Forall₂ Frame.ArrivedIn (ms.flatMap DeviceMessage.frames) (arrived c.trace) ∧
        (ms.flatMap DeviceMessage.acks).Perm ((transmitted c.trace).map ackByte) :=
  ⟨_, rfl, host_reads_all (fun _ ↦ ⟨0, 0, 0, 0⟩) (fun _ ↦ ⟨0, 0, 0, 0⟩) (fun _ ↦ 0) (fun _ ↦ 0) []
    [] overheardAll (by decide) _ rfl rfl (by decide +kernel) (by decide +kernel)
    (by decide +kernel) (by decide +kernel) (by decide +kernel) (by decide +kernel)
    (by decide +kernel)⟩

end CanDybug
