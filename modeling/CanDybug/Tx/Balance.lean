import CanDybug.Ack.Sequence
import CanDybug.Base.Flow
import CanDybug.Out.Posting
import CanDybug.Out.Requests

/-!
# Where the host's frames go

Two stores lie between a request of the host and the bus. A frame leaves the transmit queue
for a mailbox, or where `Can_BusError` resets the queue; it leaves a mailbox when it has been
transmitted or its abort takes effect. Both stores balance, and so do the two in a row; and
frames are posted in the order of the host's requests.
-/

namespace CanDybug

open Base

/-- The frame that an operation appends to the transmit queue. -/
def queuedBy (e : Op × State) : List TxMailBox :=
  match e.1 with
  | .handleRequest msg length =>
    if e.2.accepts msg length then [(e.2.exec e.1).canTxQ.buffer e.2.canTxQ.nextSlot] else []
  | _ => []

/-- The frames that `Can_HandleRequest` has queued. -/
def queued (t : Log) : List TxMailBox := t.flatMap queuedBy

@[simp] theorem queued_concat (t : Log) (e : Op × State) :
    queued (t ++ [e]) = queued t ++ queuedBy e := by
  simp [queued]

theorem queuedBy_handleRequest (msg length : Nat) (s : State) :
    queuedBy (.handleRequest msg length, s) = if s.accepts msg length = true then
      [(s.exec (.handleRequest msg length)).canTxQ.buffer s.canTxQ.nextSlot] else [] := rfl

/-- The frames that a reset drops from the queue. -/
def discardedBy (e : Op × State) : List TxMailBox :=
  match e.1 with
  | .resetTxQ => e.2.canTxQ.contents
  | _ => []

/-- The frames dropped by `Can_BusError`. -/
def discarded (t : Log) : List TxMailBox := t.flatMap discardedBy

/-- The frame whose abort an operation completes. -/
def abortedBy (e : Op × State) : List TxMailBox :=
  match e.1 with
  | .event (.txAbort m) => if e.2.can.tx.aborting m then [e.2.can.tx.mailboxes m] else []
  | _ => []

/-- The frames whose abort took effect. -/
def aborted (t : Log) : List TxMailBox := t.flatMap abortedBy

/-- Frames through the transmit queue. -/
def queueFlow : Flow State Op TxMailBox := ⟨queuedBy, fun e ↦ postedBy e ++ discardedBy e⟩

/-- Frames that are posted in the end. -/
def postFlow : Flow State Op TxMailBox := ⟨queuedBy, postedBy⟩

/-- Frames through the mailboxes. -/
def mailboxFlow : Flow State Op TxMailBox := ⟨postedBy, fun e ↦ transmittedBy e ++ abortedBy e⟩

/-- Mailboxes are written, and their transmission requested, only while they are empty. -/
def WrittenEmpty (t : Log) : Prop :=
  ∀ e ∈ t, ∀ m, e.1 = .postFrame m ∨ e.1 = .setTXRQ m → e.2.can.tx.pending m = false

theorem writtenEmpty_concat (t : Log) (e : Op × State) :
    WrittenEmpty (t ++ [e]) ↔ WrittenEmpty t ∧
      ∀ m, e.1 = .postFrame m ∨ e.1 = .setTXRQ m → e.2.can.tx.pending m = false := by
  rw [WrittenEmpty, List.forall_mem_append, List.forall_mem_singleton]
  rfl

/-! ### The mailboxes -/

/-- The frame of a request that ends is no longer in flight, and no other changes. -/
theorem inFlight_perm {u : Transmitter} {m : Fin 3} (h : u.pending m = true) (ok : Bool) :
    u.inFlight.Perm (u.mailboxes m :: (u.complete m ok).inFlight) := by
  obtain ⟨r, hr, rfl⟩ := (u.pending_iff m).mp h
  have hn := (List.nodup_append.mp u.exclusive).1
  have hp : u.requests.Perm (r :: u.requests.filter (·.mailbox != r.mailbox)) := by
    refine (List.perm_ext_iff_of_nodup (List.Nodup.of_map _ hn) ?_).mpr fun a ↦ ?_
    · exact List.nodup_cons.mpr ⟨by simp, (List.Nodup.of_map _ hn).filter _⟩
    · rw [List.mem_cons, List.mem_filter, bne_iff_ne]
      constructor
      · intro ha
        by_cases hm : a.mailbox = r.mailbox
        · exact .inl (List.inj_on_of_nodup_map hn ha hr hm)
        · exact .inr ⟨ha, hm⟩
      · rintro (rfl | ha)
        · exact hr
        · exact ha.1
  have hmap := hp.map fun r ↦ u.mailboxes r.mailbox
  simpa [Transmitter.inFlight, Transmitter.complete, h] using hmap

/-- What an event takes out of the mailboxes was in flight. -/
theorem inFlight_taken (s : State) (e : Event) :
    s.can.tx.inFlight.Perm
      (mailboxFlow.takes (.event e, s) ++ (s.exec (.event e)).can.tx.inFlight) := by
  cases e with
  | txOk m =>
    change s.can.tx.inFlight.Perm
      ((if s.can.tx.pending m then [s.can.tx.mailboxes m] else []) ++ [] ++
        (s.can.tx.complete m true).inFlight)
    by_cases h : s.can.tx.pending m = true
    · rw [if_pos h]
      exact inFlight_perm h true
    · rw [if_neg h, Transmitter.complete, dif_neg h]
      exact .refl _
  | txAbort m =>
    change s.can.tx.inFlight.Perm
      ([] ++ (if s.can.tx.aborting m then [s.can.tx.mailboxes m] else []) ++
        (if s.can.tx.aborting m then s.can.tx.complete m false else s.can.tx).inFlight)
    by_cases h : s.can.tx.aborting m = true
    · obtain ⟨r, hr, hm⟩ := List.any_eq_true.mp h
      obtain ⟨rfl, -⟩ : r.mailbox = m ∧ r.aborting = true := by simpa using hm
      rw [if_pos h, if_pos h]
      exact inFlight_perm ((s.can.tx.pending_iff _).mpr ⟨r, hr, rfl⟩) false
    · rw [if_neg h, if_neg h]
      exact .refl _
  | rx frame =>
    have he : (s.can.receive frame).tx = s.can.tx := by
      unfold Can.receive
      split <;> rfl
    change s.can.tx.inFlight.Perm ((s.can.receive frame).tx.inFlight)
    rw [he]
  | next | rxFlags | esr | error | ready | fetch => exact .refl _

/-- The mailboxes with a request hold what was posted and has not left; `written` is what has
been written but not requested yet. -/
private def Loaded (written : State → List TxMailBox) (s : State) (t : Log) : Prop :=
  WrittenEmpty t ∧
    mailboxFlow.Balance List.Perm [] (fun s ↦ s.can.tx.inFlight ++ written s) s t

/-- Between handlers nothing is half written. -/
private def LoadedLog (s : State) (t : Log) : Prop := Loaded (fun _ ↦ []) s t

private theorem Loaded.event {written : State → List TxMailBox} {s : State} {t : Log}
    (h : Loaded written s t) (e : Event) (hw : written (s.exec (.event e)) = written s) :
    Loaded written (s.exec (.event e)) (t ++ [(.event e, s)]) := by
  refine ⟨(writtenEmpty_concat t _).mpr ⟨h.1, by simp⟩, h.2.step law_perm ?_⟩
  rw [show mailboxFlow.puts (.event e, s) = [] from rfl, List.append_nil, ← List.append_assoc, hw]
  exact (inFlight_taken s e).append_right _

private theorem LoadedLog.steady {o : Op} (ho : o.steady = true) :
    OpKeeps device LoadedLog o := by
  intro s t h
  obtain ⟨hi, ht, hp⟩ := Op.steady_spec ho s
  refine ⟨(writtenEmpty_concat t _).mpr ⟨h.1, ?_⟩, h.2.same law_perm hp ?_ ?_⟩
  · rintro m (rfl | rfl) <;> contradiction
  · have ha : abortedBy (o, s) = [] := by cases o <;> first | rfl | contradiction
    change transmittedBy (o, s) ++ abortedBy (o, s) = []
    rw [ht, ha]
    rfl
  · exact congrArg (· ++ []) hi

private theorem loaded_stable : Stable device LoadedLog := fun e _ _ h ↦ h.event e rfl

/-- A frame is in flight as it was written. -/
private theorem loaded_postOne :
    Triple (fun s t ↦ LoadedLog s t ∧ s.canTxQ.empty = false) postOne fun _ ↦ LoadedLog := by
  refine postOne_rule loaded_stable (W := fun m s t ↦ s.can.tx.pending m = false ∧
    Loaded (fun s ↦ [s.can.tx.mailboxes m]) s t) ?_ (LoadedLog.steady rfl) ?_ ?_
  · intro m e s t ⟨hp, h⟩
    exact ⟨State.pending_event e hp, h.event e (by rw [s.mailboxes_event])⟩
  · intro m s t h _ hp
    refine ⟨hp, (writtenEmpty_concat t _).mpr ⟨h.1, ?_⟩, h.2.step law_perm ?_⟩
    · rintro m' (he | he) <;> cases he
      exact hp
    · have hm : (s.exec (.postFrame m)).can.tx.mailboxes m = s.canTxQ.get.1 :=
        Function.update_self _ _ _
      have hi : (s.exec (.postFrame m)).can.tx.inFlight = s.can.tx.inFlight := inFlight_write hp _
      change (s.can.tx.inFlight ++ [] ++ [s.canTxQ.get.1]).Perm (_ ++ [_])
      rw [hm, hi, List.append_nil]
  · intro m s t ⟨hp, h⟩
    refine ⟨(writtenEmpty_concat t _).mpr ⟨h.1, ?_⟩, h.2.step law_perm ?_⟩
    · rintro m' (he | he) <;> cases he
      exact hp
    · have hi : (s.exec (.setTXRQ m)).can.tx.inFlight =
          s.can.tx.inFlight ++ [s.can.tx.mailboxes m] := inFlight_request hp
      change (s.can.tx.inFlight ++ [s.can.tx.mailboxes m] ++ []).Perm (_ ++ [])
      rw [hi]

private theorem loaded_receive : Keeps LoadedLog canIfReceiveOutData :=
  keeps_canIfReceiveOutData loaded_stable (LoadedLog.steady rfl) fun _ ↦ LoadedLog.steady rfl

private theorem loaded_kept : Kept LoadedLog where
  stable := loaded_stable
  tsr := LoadedLog.steady rfl
  rfr := LoadedLog.steady rfl
  fifo := LoadedLog.steady rfl
  esr := LoadedLog.steady rfl
  message _ _ := LoadedLog.steady rfl
  release := LoadedLog.steady rfl
  completion := LoadedLog.steady rfl
  out := keeps_outCompletion (fun _ ↦ LoadedLog.steady rfl) (fun _ ↦ LoadedLog.steady rfl)
    (fun _ _ ↦ LoadedLog.steady rfl) (LoadedLog.steady rfl) (fun _ _ ↦ LoadedLog.steady rfl)
    (keeps_canPostFrames loaded_postOne) loaded_receive
  sent := keeps_canFrameSent (keeps_scanMailbox loaded_stable (fun _ _ ↦ LoadedLog.steady rfl)
    (fun _ ↦ LoadedLog.steady rfl) fun _ ↦ LoadedLog.steady rfl)
    (keeps_canPostFrames loaded_postOne) loaded_receive
  error := keeps_canBusError loaded_stable (LoadedLog.steady rfl)
    (fun _ _ ↦ LoadedLog.steady rfl) (LoadedLog.steady rfl) (fun _ ↦ LoadedLog.steady rfl)
    (LoadedLog.steady rfl)

private theorem loaded_run (mailboxes : Fin 3 → TxMailBox) (txq : Nat → TxMailBox)
    (inb outb : Nat → UInt8) (steps : List Step) :
    LoadedLog (run (boot mailboxes txq inb outb) steps).state
      (run (boot mailboxes txq inb outb) steps).trace := by
  have start (s : State) (h : s.can.tx.requests = []) : LoadedLog s [] :=
    ⟨by simp [WrittenEmpty], Flow.balance_nil law_perm (by simp [Transmitter.inFlight, h])⟩
  have reset (s : State) (t : Log) (_ : LoadedLog s t) : LoadedLog (s.exec .resetCan) [] :=
    start _ rfl
  exact loaded_kept.run
    (keeps_canIfOpen loaded_stable reset (LoadedLog.steady rfl) (LoadedLog.steady rfl)
      loaded_receive)
    (keeps_canClose loaded_stable reset (LoadedLog.steady rfl)) (start _ rfl) steps

/-- In every run: mailboxes are written only while they are empty, and the frames posted are,
up to their order, those transmitted, those aborted and those in flight. -/
theorem mailboxes_run (mailboxes : Fin 3 → TxMailBox) (txq : Nat → TxMailBox)
    (inb outb : Nat → UInt8) (steps : List Step) {c : Config}
    (hc : c = run (boot mailboxes txq inb outb) steps) :
    WrittenEmpty c.trace ∧
      (posted c.trace).Perm
        (transmitted c.trace ++ aborted c.trace ++ c.state.can.tx.inFlight) := by
  subst hc
  obtain ⟨hw, hb⟩ := loaded_run mailboxes txq inb outb steps
  refine ⟨hw, hb.trans ?_⟩
  have ht := (List.flatMap_append_perm
    (run (boot mailboxes txq inb outb) steps).trace transmittedBy abortedBy).symm
  exact ht.append (.of_eq (List.append_nil _))

/-! ### The transmit queue -/

/-- What has been queued are the frames of the requests; the queue balances, and keeps the order
of what is not discarded. -/
private structure QueueLog (s : State) (t : Log) : Prop where
  holds : List.Forall₂ TxMailBox.Holds (queued t) (requested t)
  balance : queueFlow.Balance List.Perm [] (fun s ↦ s.canTxQ.contents) s t
  ordered : postFlow.Balance (fun a b ↦ b.Sublist a) [] (fun s ↦ s.canTxQ.contents) s t

/-- Nothing is queued, and the queue's contents and what an operation takes out of it are
what it held. -/
private theorem QueueLog.taken {o : Op} {s s' : State} {t : Log} (h : QueueLog s t)
    (hq : queuedBy (o, s) = []) (hr : requestedBy (o, s) = [])
    (ht : s.canTxQ.contents = queueFlow.takes (o, s) ++ s'.canTxQ.contents) :
    QueueLog s' (t ++ [(o, s)]) := by
  refine ⟨?_, h.balance.step law_perm ?_, h.ordered.step law_sublist ?_⟩
  · rw [queued_concat, requested_concat, hq, hr, List.append_nil, List.append_nil]
    exact h.holds
  · rw [show queueFlow.puts (o, s) = [] from hq, List.append_nil, ← ht]
  · rw [show postFlow.puts (o, s) = [] from hq, List.append_nil, ht]
    exact (List.sublist_append_left _ _).append_right _

private theorem QueueLog.plain {o : Op} (ho : o.plain = true) : OpKeeps device QueueLog o := by
  intro s t h
  have hq : (s.exec o).canTxQ = s.canTxQ := (Op.plain_spec ho s).1
  have ht : queueFlow.takes (o, s) = [] := by cases o <;> first | rfl | contradiction
  apply h.taken
  · cases o <;> first | rfl | contradiction
  · cases o <;> first | rfl | contradiction
  · rw [ht, show (device.exec o s).canTxQ = s.canTxQ from hq, List.nil_append]

/-- With the invariant of the OUT pipe. -/
private def QueueSound (s : State) (t : Log) : Prop := QueueLog s t ∧ SoundLog s t

private theorem queueSound_plain {o : Op} (ho : o.plain = true) : OpKeeps device QueueSound o :=
  fun s t h ↦ ⟨QueueLog.plain ho s t h.1, SoundLog.plain ho s t h.2⟩

private theorem queueSound_stable : Stable device QueueSound := fun _ ↦ queueSound_plain rfl

private theorem queueSound_canPostFrames : Keeps QueueSound canPostFrames := by
  apply keeps_canPostFrames
  refine keeps_postOne queueSound_stable (queueSound_plain rfl) ?_ fun _ ↦ queueSound_plain rfl
  intro m s t h he
  have hc := Queue.contents_get h.2.1.queue (Queue.count_pos h.2.1.queue he)
  exact ⟨h.1.taken rfl rfl hc, h.2.1.postFrame he m, h.2.2.concat trivial⟩

private theorem queueSound_receive : Keeps QueueSound canIfReceiveOutData :=
  keeps_and ((keeps_canIfReceiveOutData (fun _ ↦ QueueLog.plain rfl) (QueueLog.plain rfl)
    fun _ _ _ h ↦ h.taken rfl rfl rfl).pre fun _ _ h ↦ h.1) soundLog_receive

/-- An accepted request is queued as a mailbox that holds its frame. -/
private theorem queueLog_accept {s : State} {t : Log} (h : QueueLog s t) {pbuf length n : Nat}
    (hr : Round pbuf length s t) (hn : n ≤ length) (ha : s.accepts (pbuf + 1) (n - 1) = true) :
    QueueLog (s.exec (.handleRequest (pbuf + 1) (n - 1)))
      (t ++ [(.handleRequest (pbuf + 1) (n - 1), s)]) := by
  have hq := hr.sound.1.queue
  obtain ⟨f, mb, hrow, hmb, hput⟩ := accepted_spec hq ha
  have hf : requestedBy (.handleRequest (pbuf + 1) (n - 1), s) = [f] :=
    congrArg Option.toList ((decodeBody_iff _ _).mpr hrow)
  have hmbq : queuedBy (.handleRequest (pbuf + 1) (n - 1), s) = [mb] := by
    rw [queuedBy_handleRequest, if_pos ha, hput, Queue.put_eq hq]
    exact congrArg (fun x ↦ [x]) (Function.update_self _ _ _)
  have hc : (s.exec (.handleRequest (pbuf + 1) (n - 1))).canTxQ.contents =
      s.canTxQ.contents ++ queuedBy (.handleRequest (pbuf + 1) (n - 1), s) := by
    rw [hmbq, hput, Queue.contents_put hq (hr.space_pos hn hrow).2.2]
  refine ⟨?_, h.balance.step law_perm (.of_eq hc.symm), h.ordered.step law_sublist ?_⟩
  · rw [queued_concat, requested_concat, hf, hmbq]
    exact List.rel_append h.holds (.cons hmb .nil)
  · exact hc ▸ List.Sublist.refl _

private theorem queueLog_reject {s : State} {t : Log} (h : QueueLog s t) {pbuf length n : Nat}
    (hr : Round pbuf length s t) (ha : s.accepts (pbuf + 1) (n - 1) = false) :
    QueueLog (s.exec (.handleRequest (pbuf + 1) (n - 1)))
      (t ++ [(.handleRequest (pbuf + 1) (n - 1), s)]) := by
  have hq := hr.sound.1.queue
  obtain ⟨hdec, buffer, hput, hb⟩ := rejected_spec hq ha
  refine h.taken ?_ (congrArg Option.toList hdec) ?_
  · rw [queuedBy_handleRequest, if_neg (by simp [ha])]
  · rw [hput, Queue.contents_of_other hq hb]
    rfl

private theorem queueSound_out (bytes : List UInt8) : Keeps QueueSound (outCompletion bytes) := by
  refine outCompletion_rule (L := fun _ _ ↦ QueueLog) (M := QueueLog) (fun _ _ h ↦ h)
    ?_ ?_ ?_ ?_ ?_ (keeps_bind queueSound_canPostFrames fun _ ↦ queueSound_receive)
  · intro g s t _ h hg _
    have hd : QueueLog (s.exec (.deliver bytes)) (t ++ [(.deliver bytes, s)]) :=
      h.taken rfl rfl (by rw [(s.exec_delivered bytes).2]; rfl)
    rw [loopEntries, List.append_cons]
    exact hd.taken rfl rfl rfl
  · exact fun _ _ _ _ hr h _ _ hn _ ha ↦ queueLog_accept h hr hn ha
  · rintro _ _ _ _ hr h _ _ _ _ ha s' rfl
    exact (queueLog_reject h hr ha).taken rfl rfl rfl
  · exact fun _ _ _ _ _ h _ _ ↦ h.taken rfl rfl rfl
  · exact fun _ _ _ _ _ h _ ↦ h.taken rfl rfl rfl

private theorem queueSound_kept : Kept QueueSound where
  stable := queueSound_stable
  tsr := queueSound_plain rfl
  rfr := queueSound_plain rfl
  fifo := queueSound_plain rfl
  esr := queueSound_plain rfl
  message _ _ := queueSound_plain rfl
  release := queueSound_plain rfl
  completion := queueSound_plain rfl
  out := queueSound_out
  sent := keeps_canFrameSent
    (keeps_scanMailbox queueSound_stable (fun _ _ ↦ queueSound_plain rfl)
      (fun _ ↦ queueSound_plain rfl) fun _ ↦ queueSound_plain rfl)
    queueSound_canPostFrames queueSound_receive
  error := keeps_and ((keeps_canBusError (fun _ ↦ QueueLog.plain rfl) (QueueLog.plain rfl)
    (fun _ _ ↦ QueueLog.plain rfl) (QueueLog.plain rfl) (fun _ ↦ QueueLog.plain rfl)
    fun _ _ h ↦ h.taken rfl rfl (List.append_nil _).symm).pre fun _ _ h ↦ h.1) soundLog_kept.error

/-- Once `Can_Start` has reset the queue it has nothing to account for. -/
private theorem queueSound_open (init : Bool) :
    Triple SoundLog (canIfOpen true init) fun _ ↦ QueueSound := by
  refine canIfOpen_begin (S := QueueSound) soundLog_stable soundLog_stable soundLog_reset ?_
    (fun _ _ _ h ↦ h) (fun _ s t h ↦ ⟨h.1.taken rfl rfl rfl, soundLog_emptyBuffers s t h.2⟩)
    queueSound_receive
  intro s t h ht
  have hq : queued t = [] := ht.flatMap fun _ _ ↦ rfl
  have hr : requested t = [] := ht.flatMap fun _ _ ↦ rfl
  have hin : queueFlow.entered t = [] := hq
  have hout : queueFlow.left t = [] := ht.flatMap fun _ _ ↦ rfl
  have hin' : postFlow.entered t = [] := hq
  have hout' : postFlow.left t = [] := ht.flatMap fun _ _ ↦ rfl
  refine ⟨⟨?_, ?_, ?_⟩, soundLog_canStart s t h⟩
  · rw [queued_concat, requested_concat, hq, hr]
    exact .nil
  · rw [Flow.Balance, Flow.entered_concat, Flow.left_concat, hin, hout]
    exact .nil
  · rw [Flow.Balance, Flow.entered_concat, Flow.left_concat, hin', hout']
    exact .slnil

/-- In every session: the frames queued are those requested, the queue balances, and what is
posted and what it holds are in the order in which they were queued. -/
theorem queue_session (mailboxes : Fin 3 → TxMailBox) (txq : Nat → TxMailBox)
    (inb outb : Nat → UInt8) (before : List Step) (init : Bool) (script : List (List Event))
    {steps : List Step} (session : ∀ a ∈ steps, a.action.inSession = true) {c : Config}
    (hc : c = run (boot mailboxes txq inb outb)
      (before ++ [⟨.canIfOpen true init, script⟩] ++ steps)) :
    List.Forall₂ TxMailBox.Holds (queued c.trace) (requested c.trace) ∧
      (queued c.trace).Perm (posted c.trace ++ discarded c.trace ++ c.state.canTxQ.contents) ∧
      (posted c.trace ++ c.state.canTxQ.contents).Sublist (queued c.trace) := by
  have hq : QueueSound c.state c.trace :=
    opened_session queueSound_kept (queueSound_open init) mailboxes txq inb outb before script
      session hc
  refine ⟨hq.1.holds, hq.1.balance.trans ?_, hq.1.ordered⟩
  exact (List.flatMap_append_perm c.trace postedBy discardedBy).symm.append_right _

/-- After a `CanIf_Open` that could set the bit rate, frames are posted in the order of the
host's requests. -/
theorem posted_requested (mailboxes : Fin 3 → TxMailBox) (txq : Nat → TxMailBox)
    (inb outb : Nat → UInt8) (before : List Step) (init : Bool) (script : List (List Event))
    {steps : List Step} (session : ∀ a ∈ steps, a.action.inSession = true) {c : Config}
    (hc : c = run (boot mailboxes txq inb outb)
      (before ++ [⟨.canIfOpen true init, script⟩] ++ steps)) :
    List.SublistForall₂ TxMailBox.Holds (posted c.trace) (requested c.trace) := by
  obtain ⟨hh, -, hs⟩ := queue_session mailboxes txq inb outb before init script session hc
  exact sublistForall₂_of_sublist (List.sublistForall₂_iff.mpr ⟨_, hh, .refl _⟩)
    ((List.sublist_append_left _ _).trans hs)

/-! ### Both stores in a row -/

/-- After a `CanIf_Open` that could set the bit rate, whatever the host sends and whatever
errors occur: the frames queued are those that the host requested, in their order. Each of them
has been transmitted, or aborted, or discarded by `Can_BusError`, or is in flight, or is still
queued, and exactly one of these; and nothing else has been transmitted. Mailboxes are written
only while they are empty. -/
theorem requests_conserved (mailboxes : Fin 3 → TxMailBox) (txq : Nat → TxMailBox)
    (inb outb : Nat → UInt8) (before : List Step) (init : Bool) (script : List (List Event))
    (steps : List Step) (session : ∀ a ∈ steps, a.action.inSession = true) (c : Config)
    (hc : c = run (boot mailboxes txq inb outb)
      (before ++ [⟨.canIfOpen true init, script⟩] ++ steps)) :
    List.Forall₂ TxMailBox.Holds (queued c.trace) (requested c.trace) ∧
      (queued c.trace).Perm (transmitted c.trace ++ aborted c.trace ++ c.state.can.tx.inFlight ++
        discarded c.trace ++ c.state.canTxQ.contents) ∧
      WrittenEmpty c.trace := by
  obtain ⟨hh, hq, -⟩ := queue_session mailboxes txq inb outb before init script session hc
  obtain ⟨hw, hm⟩ := mailboxes_run mailboxes txq inb outb _ hc
  exact ⟨hh, hq.trans ((hm.append_right _).append_right _), hw⟩

/-- Four frames, of which one is transmitted, one aborted and one still in flight when an error
discards the fourth; a transfer armed before it brings a fifth. -/
def scattered : List Step :=
  [⟨.epOutComplete [4, 2, 0, 1, 4, 2, 0, 2, 4, 2, 0, 3, 4, 2, 0, 4], []⟩,
    ⟨.event (.error 0x12), []⟩, ⟨.busError, []⟩, ⟨.event (.txOk 1), []⟩,
    ⟨.event (.txAbort 0), []⟩, ⟨.epOutComplete [4, 2, 0, 5], []⟩]

/-- Every one of them is accounted for. -/
theorem requests_conserved_scattered :
    ∃ c : Config, c = run (boot (fun _ ↦ ⟨0, 0, 0, 0⟩) (fun _ ↦ ⟨0, 0, 0, 0⟩) (fun _ ↦ 0) fun _ ↦ 0)
        ([] ++ [⟨.canIfOpen true true, []⟩] ++ scattered) ∧
      List.Forall₂ TxMailBox.Holds (queued c.trace) (requested c.trace) ∧
      (queued c.trace).Perm (transmitted c.trace ++ aborted c.trace ++ c.state.can.tx.inFlight ++
        discarded c.trace ++ c.state.canTxQ.contents) ∧
      WrittenEmpty c.trace :=
  ⟨_, rfl, requests_conserved (fun _ ↦ ⟨0, 0, 0, 0⟩) (fun _ ↦ ⟨0, 0, 0, 0⟩) (fun _ ↦ 0)
    (fun _ ↦ 0) [] true [] scattered (by decide) _ rfl⟩

end CanDybug
