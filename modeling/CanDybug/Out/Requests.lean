import CanDybug.Device.Log
import CanDybug.Out.Space

/-!
# Requests of the host's stream

Whatever becomes of a frame after it has been queued, and however often a bus error resets the
queue: the requests decoded are the messages of the bytes received, cut into transfers in any
way. A host that sends nothing but frame packets never meets a stop.
-/

namespace CanDybug

open Base

/-- The frame that an operation decodes from a request. -/
def requestedBy (e : Op × State) : List Frame :=
  match e.1 with
  | .handleRequest msg length => (decodeBody (cells e.2.canIfOut.buffer msg length)).toList
  | _ => []

/-- The frames that the host requested. -/
def requested (t : Log) : List Frame := t.flatMap requestedBy

@[simp] theorem requested_concat (t : Log) (e : Op × State) :
    requested (t ++ [e]) = requested t ++ requestedBy e := by
  simp [requested]

/-- Nothing was delivered after a message that was not valid. -/
def Straight (t : Log) : Prop := ∀ e ∈ afterStop t, e.1.delivers = false

instance decidableStraight (t : Log) : Decidable (Straight t) :=
  inferInstanceAs (Decidable (∀ e ∈ _, _))

theorem straight_concat (t : Log) (e : Op × State) :
    Straight (t ++ [e]) ↔ Straight t ∧ (stopped t = true → e.1.delivers = false) :=
  forall_afterStop_concat t e

theorem straight_of_not_stopped {t : Log} (h : stopped t = false) : Straight t := by
  intro e he
  rw [afterStop_eq_nil h] at he
  contradiction

/-- The packets of frames, in order. -/
def packets (fs : List Frame) : List UInt8 := fs.flatMap Frame.packet

/-- The beginning of a stream of packets. -/
def Packets (bytes : List UInt8) : Prop := ∃ fs, bytes <+: packets fs

/-- Packets are a concatenation of messages. -/
theorem stream_packets (fs : List Frame) : dataPipe.Stream (packets fs) fs := by
  induction fs with
  | nil => exact .nil
  | cons f fs ih => exact .cons (message_packet f) ih

/-- No message of a stream of packets is not valid. -/
theorem Packets.valid {bytes : List UInt8} (h : Packets bytes) {fs : List Frame}
    (hs : dataPipe.scan bytes = (fs, .invalid)) : False := by
  obtain ⟨gs, hp⟩ := h
  obtain ⟨_, r, hr, _⟩ := dataPipe.scan_beginning (stream_packets gs) hp
  cases hs.symm.trans hr

theorem Packets.before {bytes more : List UInt8} (h : Packets (bytes ++ more)) : Packets bytes :=
  h.imp fun _ hp ↦ (List.prefix_append bytes more).trans hp

/-- Operations that concern neither the OUT buffer nor what is received. -/
def Op.unread : Op → Bool
  | emptyBuffers | deliver _ | sentinel _ | handleRequest _ _ | stop | moveFragment _ _ => false
  | _ => true

theorem Op.unread_spec {o : Op} (h : o.unread = true) (s : State) :
    (s.exec o).canIfOut = s.canIfOut ∧ o.delivers = false ∧ (o == .stop) = false ∧
      requestedBy (o, s) = [] := by
  cases o with
  | event e => exact ⟨(s.exec_event e).2.1, rfl, rfl, rfl⟩
  | emptyBuffers | deliver | sentinel | handleRequest | stop | moveFragment => contradiction
  | _ => exact ⟨rfl, rfl, rfl, rfl⟩

/-- The requests decoded are the messages read from what was received, and the buffer holds
the message that reading ends inside of. -/
def Requests (s : State) (t : Log) : Prop :=
  (Straight t → dataPipe.scan (received t) =
    (requested t, if stopped t then .invalid
      else .fragment (cells s.canIfOut.buffer 0 s.canIfOut.offset))) ∧
    (Packets (received t) → stopped t = false)

theorem Requests.unread {o : Op} (ho : o.unread = true) : OpKeeps device Requests o := by
  intro s t ⟨h, hp⟩
  obtain ⟨hb, hd, hs, hr⟩ := Op.unread_spec ho s
  rw [Requests, received_same _ _ hd, stopped_concat, hs, Bool.or_false, requested_concat, hr,
    List.append_nil, show (device.exec o s).canIfOut = s.canIfOut from hb]
  exact ⟨fun hst ↦ h ((straight_concat t _).mp hst).1, hp⟩

theorem requests_stable : Stable device Requests := fun _ ↦ Requests.unread rfl

/-! ### One transfer -/

/-- Invariant of the loop: what is left of the data continues what has been read. -/
private def Unfinished (pbuf length : Nat) (s : State) (t : Log) : Prop :=
  (Straight t → stopped t = false ∧ dataPipe.scan (received t) =
    (requested t ++ (dataPipe.scan (cells s.canIfOut.buffer pbuf length)).1,
      (dataPipe.scan (cells s.canIfOut.buffer pbuf length)).2)) ∧
    (Packets (received t) → stopped t = false)

private theorem unfinished_start {s : State} {t : Log} (hs : Sound s) (h : Requests s t)
    {g : Region} (hg : s.armed = some g) (bytes : List UInt8) :
    Unfinished (g.start - s.canIfOut.offset) (bytes.length + s.canIfOut.offset)
      (loopStart s bytes g) (t ++ loopEntries s bytes g) := by
  rw [loopEntries, List.append_cons, Unfinished, straight_concat, straight_concat,
    cells_loopStart hs hg]
  simp only [stopped_concat, requested_concat, received_concat, Op.delivered, requestedBy,
    List.append_nil, show ∀ bytes, (Op.deliver bytes == .stop) = false from fun _ ↦ rfl,
    show ∀ i, (Op.sentinel i == .stop) = false from fun _ ↦ rfl, Bool.or_false]
  refine ⟨fun hst ↦ ?_, fun hp ↦ h.2 hp.before⟩
  have hns : stopped t = false := by
    by_contra hne
    have hd := hst.1.2 (by simpa using hne)
    contradiction
  have hsc := h.1 hst.1.1
  rw [hns] at hsc
  exact ⟨hns, dataPipe.scan_append hsc bytes⟩

private theorem unfinished_accept {pbuf length : Nat} {s : State} {t : Log}
    (hr : Round pbuf length s t) (h : Unfinished pbuf length s t) {n : Nat}
    (he : n = (s.canIfOut.buffer pbuf).toNat) (hn : n ≤ length) (h0 : n ≠ 0)
    (ha : s.accepts (pbuf + 1) (n - 1) = true) :
    Unfinished (pbuf + n) (length - n) (s.exec (.handleRequest (pbuf + 1) (n - 1)))
      (t ++ [(.handleRequest (pbuf + 1) (n - 1), s)]) := by
  obtain ⟨f, -, hrow, -, -⟩ := accepted_spec hr.sound.1.queue ha
  have hf : requestedBy (.handleRequest (pbuf + 1) (n - 1), s) = [f] :=
    congrArg Option.toList ((decodeBody_iff _ _).mpr hrow)
  rw [Unfinished, straight_concat, received_same _ _ rfl, stopped_concat, requested_concat, hf]
  refine ⟨fun hst ↦ ?_, fun hp ↦ by simpa using h.2 hp⟩
  obtain ⟨hns, hs⟩ := h.1 hst.1
  refine ⟨by simpa using hns, ?_⟩
  rw [hs, scan_cells_some he hn h0 hrow, List.append_assoc]
  rfl

/-- A message that is not valid ends the reading, and packets do not lead there. -/
private theorem unfinished_stop {pbuf length : Nat} {s s' : State} {t t' : Log}
    (h : Unfinished pbuf length s t)
    (hscan : dataPipe.scan (cells s.canIfOut.buffer pbuf length) = ([], .invalid))
    (hst : Straight t' → Straight t) (hq : requested t' = requested t)
    (hd : received t' = received t) : Requests (s'.exec .stop) (t' ++ [(.stop, s')]) := by
  rw [Unfinished, hscan, List.append_nil] at h
  rw [Requests, straight_concat, received_same _ _ rfl, stopped_concat, requested_concat, hd, hq,
    show requestedBy (.stop, s') = [] from rfl, List.append_nil]
  constructor
  · intro hs
    rw [(h.1 (hst hs.1)).2]
    simp
  · intro hp
    have hns := h.2 hp
    exact (hp.valid (h.1 (straight_of_not_stopped hns)).2).elim

private theorem unfinished_done {pbuf length : Nat} {s : State} {t : Log}
    (h : Unfinished pbuf length s t) (hn : length < (s.canIfOut.buffer pbuf).toNat) :
    Requests (s.exec (.moveFragment pbuf length)) (t ++ [(.moveFragment pbuf length, s)]) := by
  rw [Requests, straight_concat, received_same _ _ rfl, stopped_concat, requested_concat]
  refine ⟨fun hst ↦ ?_, fun hp ↦ by simpa using h.2 hp⟩
  obtain ⟨hns, hs⟩ := h.1 hst.1
  rw [hs, scan_cells_short rfl hn, hns]
  change _ = (requested t ++ [], if (false || false) = true then Rest.invalid
    else .fragment (cells (copy s.canIfOut.buffer 0 pbuf length) 0 length))
  rw [cells_copy _ _ (Nat.zero_le _)]
  rfl

/-! ### Sessions -/

/-- With the invariant of the OUT pipe. -/
def RequestsSound (s : State) (t : Log) : Prop := Requests s t ∧ SoundLog s t

private theorem requestsSound_stable : Stable device RequestsSound :=
  requests_stable.and soundLog_stable

private theorem requests_canPostFrames : Keeps Requests canPostFrames :=
  keeps_canPostFrames (keeps_postOne requests_stable (Requests.unread rfl)
    (fun _ s t h _ ↦ Requests.unread rfl s t h) fun _ ↦ Requests.unread rfl)

private theorem requests_receive : Keeps Requests canIfReceiveOutData :=
  keeps_canIfReceiveOutData requests_stable (Requests.unread rfl) fun _ ↦ Requests.unread rfl

private theorem requestsSound_unread {o : Op} (ho : o.unread = true) (hp : o.plain = true) :
    OpKeeps device RequestsSound o :=
  fun s t h ↦ ⟨Requests.unread ho s t h.1, SoundLog.plain hp s t h.2⟩

private theorem requestsSound_out (bytes : List UInt8) :
    Keeps RequestsSound (outCompletion bytes) := by
  refine outCompletion_rule (L := Unfinished) (M := Requests) (fun _ _ h ↦ h)
    (fun _ _ _ hs h hg _ ↦ unfinished_start hs.1 h hg bytes)
    (fun _ _ _ _ hr h _ he hn h0 ha ↦ unfinished_accept hr h he hn h0 ha) ?_
    (fun _ _ _ _ _ h hl h0 ↦ unfinished_stop h (scan_cells_zero rfl hl h0) id rfl rfl)
    (fun _ _ _ _ _ h hn ↦ unfinished_done h hn)
    (keeps_bind (requests_canPostFrames.and soundLog_canPostFrames) fun _ ↦
      requests_receive.and soundLog_receive)
  rintro _ _ s t hr h n he hn h0 ha s' rfl
  obtain ⟨hdec, -, -, -⟩ := rejected_spec hr.sound.1.queue ha
  refine unfinished_stop h (scan_cells_none he hn h0 hdec)
    (fun hst ↦ ((straight_concat _ _).mp hst).1) ?_ (received_same _ _ rfl)
  rw [requested_concat]
  exact congrArg (requested t ++ ·) (congrArg Option.toList hdec) |>.trans (List.append_nil _)

theorem requestsSound_kept : Kept RequestsSound where
  stable := requestsSound_stable
  tsr := requestsSound_unread rfl rfl
  rfr := requestsSound_unread rfl rfl
  fifo := requestsSound_unread rfl rfl
  esr := requestsSound_unread rfl rfl
  message _ _ := requestsSound_unread rfl rfl
  release := requestsSound_unread rfl rfl
  completion := requestsSound_unread rfl rfl
  out := requestsSound_out
  sent := (keeps_canFrameSent (keeps_scanMailbox requests_stable (fun _ _ ↦ Requests.unread rfl)
    (fun _ ↦ Requests.unread rfl) fun _ ↦ Requests.unread rfl) requests_canPostFrames
    requests_receive).and soundLog_kept.sent
  error := (keeps_canBusError requests_stable (Requests.unread rfl)
    (fun _ _ ↦ Requests.unread rfl) (Requests.unread rfl) (fun _ ↦ Requests.unread rfl)
    (Requests.unread rfl)).and soundLog_kept.error

/-- A successful `CanIf_Open` starts the stream anew. -/
theorem requestsSound_open : Triple SoundLog (canIfOpen true true) fun _ ↦ RequestsSound := by
  refine canIfOpen_begin soundLog_stable (E := SoundLog) (S := fun s t ↦ SoundLog s t ∧
    received t = [] ∧ stopped t = false ∧ requested t = []) soundLog_stable soundLog_reset ?_
    nofun ?_ (requests_receive.and soundLog_receive)
  · intro s t h ht
    have hd : received t = [] := ht.flatMap fun _ _ ↦ rfl
    have hr : requested t = [] := ht.flatMap fun _ _ ↦ rfl
    have hs : stopped t = false := by
      rw [stopped, List.any_eq_false]
      rintro ⟨o, s⟩ hx
      obtain ⟨e, rfl⟩ := ht _ hx
      simp
    refine ⟨soundLog_canStart s t h, (received_same _ _ rfl).trans hd, ?_, ?_⟩
    · rw [stopped_concat, hs]
      rfl
    · rw [requested_concat, hr]
      rfl
  · rintro - s t ⟨h, hd, hs, hr⟩
    refine ⟨?_, soundLog_emptyBuffers s t h⟩
    rw [Requests, received_same _ _ rfl, stopped_concat, requested_concat, hd, hs, hr]
    exact ⟨fun _ ↦ dataPipe.scan_nil, fun _ ↦ rfl⟩

/-- The requests of a session are those of its stream. -/
theorem requests_session (mailboxes : Fin 3 → TxMailBox) (txq : Nat → TxMailBox)
    (inb outb : Nat → UInt8) (before : List Step) (script : List (List Event))
    {steps : List Step} (session : ∀ a ∈ steps, a.action.inSession = true) {c : Config}
    (hc : c = run (boot mailboxes txq inb outb)
      (before ++ [⟨.canIfOpen true true, script⟩] ++ steps)) : Requests c.state c.trace :=
  (opened_session requestsSound_kept requestsSound_open mailboxes txq inb outb before script
    session hc).1

end CanDybug
