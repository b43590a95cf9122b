import CanDybug.Device.Log
import CanDybug.Out.Posting

/-!
# What keeps the OUT pipe going

Reception is evaluated again when a transfer completes or an acknowledged mailbox is
handled. If no transfer is armed, no request is pending that is not being aborted and no
`TXOK` is flagged, nothing will ever evaluate it. Stated here: the steps that take the last of
these away, those that make up for it, and that nothing is left exactly if it has been taken away
since. Where reception is refused for lack of space in the queue, frames are queued behind
mailboxes that are not empty, and so something is left unless all of these are being aborted.
-/

namespace CanDybug

open Base

/-- Something will evaluate reception again: a transfer, a request, or a flagged `TXOK`. -/
def State.live (s : State) : Bool :=
  s.armed.isSome || s.can.tx.requests.any (!·.aborting) || s.flagged fun _ ↦ true

/-- No transfer is armed, and no request is pending but those that are being aborted. -/
def State.spent (s : State) : Bool := s.armed.isNone && s.can.tx.requests.all (·.aborting)

/-- `CanIf_ReceiveOutData` refuses for an error, with nothing queued; `Can_PostFrames` finds that
all mailboxes are being aborted; `Can_BusError` has aborted them; or, if it is not still to post
frames, `Can_FrameSent` clears a `TXOK` that it has not seen. All this with no transfer armed, no
other request and no other `TXOK`. -/
def starves (due : Bool) (e : Op × State) : Bool :=
  match e.1 with
  | .receiveOutData =>
    e.2.can.blocked && e.2.canTxQ.empty && e.2.spent && !e.2.flagged fun _ ↦ true
  | .read .tsr => !e.2.can.tx.anyEmpty && e.2.spent
  | .resetTxQ => e.2.armed.isNone && !e.2.flagged fun _ ↦ true
  | .clearRQCP m => !due && e.2.can.tx.txok m && e.2.spent && !e.2.flagged (· != m)
  | _ => false

/-- A frame is transmitted; `CanIf_ReceiveOutData` arms; or one of the above happens with
something outstanding. -/
def feeds (e : Op × State) : Bool :=
  match e.1 with
  | .event (.txOk m) => e.2.can.tx.pending m
  | .receiveOutData => e.2.accepting || e.2.canTxQ.empty
  | .read .tsr => !e.2.can.tx.anyEmpty
  | .resetTxQ => true
  | _ => false

/-- A step has left nothing outstanding, and none has made up for it since. -/
def starved (t : Log) : Bool := posting.since starves (fun _ ↦ feeds) t

theorem starved_concat (t : Log) (e : Op × State) :
    starved (t ++ [e]) = (starves (posting.after t) e || starved t && !feeds e) :=
  Monitor.since_concat t e

theorem not_stopped_concat {t : Log} {e : Op × State} (h : stopped (t ++ [e]) = false) :
    stopped t = false ∧ e.1 ≠ .stop := by
  obtain ⟨o, s⟩ := e
  rw [stopped_concat, Bool.or_eq_false_iff] at h
  exact ⟨h.1, by simpa using h.2⟩

theorem live_eq (s : State) : s.live = !(s.spent && !s.flagged fun _ ↦ true) := by
  rw [State.live, State.spent, List.all_eq_not_any_not]
  cases s.armed <;> simp

/-- Between handlers, unless a message was not valid: nothing is still to be posted, and something
is outstanding unless the pipe is starved. -/
def LiveLog (s : State) (t : Log) : Prop :=
  stopped t = false → posting.after t = false ∧ s.live = !starved t

/-! ### Operations -/

theorem LiveLog.step {o : Op} {s u : State} {t : Log} (h : LiveLog s t)
    (hn : posting.next false (o, s) = false)
    (hl : u.live = !(starves false (o, s) || !s.live && !feeds (o, s))) :
    LiveLog u (t ++ [(o, s)]) := by
  intro hst
  obtain ⟨hp, hlive⟩ := h (not_stopped_concat hst).1
  refine ⟨by rw [Monitor.after_concat, hp, hn], Monitor.since_eq_concat hlive ?_⟩
  rw [hp, hl]

/-- A step that takes nothing away and makes up for nothing. -/
theorem LiveLog.same {o : Op} {s s' : State} {t : Log} (h : LiveLog s t)
    (hl : s'.live = s.live) (hn : posting.next false (o, s) = false)
    (hs : starves false (o, s) = false) (hf : feeds (o, s) = false) :
    LiveLog s' (t ++ [(o, s)]) := by
  apply h.step hn
  rw [hl, hs, hf]
  simp

/-- Where no mailbox is empty none has a completion. -/
theorem live_of_full {s : State} (h : s.can.tx.anyEmpty = false) : s.live = !s.spent := by
  have hf : s.flagged (fun _ ↦ true) = false := by
    by_contra hf
    rw [anyEmpty_of_flagged (by simpa using hf)] at h
    contradiction
  rw [live_eq, hf, Bool.not_false, Bool.and_true]

theorem liveLog_tsr : OpKeeps device LiveLog (.read .tsr) := by
  intro s t h
  by_cases he : s.can.tx.anyEmpty = true
  · refine h.same rfl rfl ?_ ?_ <;> simp [starves, feeds, he]
  · have he' : s.can.tx.anyEmpty = false := by simpa using he
    apply h.step (u := s) rfl
    rw [live_of_full he']
    simp [starves, feeds, he']

/-- The end of a request adds the `TXOK` of a success; other requests stay as they are. -/
private theorem live_complete {s : State} {r : Request} (hr : r ∈ s.can.tx.requests) {ok : Bool}
    (ha : r.aborting = true ∨ ok = true) :
    (s.onTx fun u ↦ u.complete r.mailbox ok).live = (ok || s.live) := by
  have hp : s.can.tx.pending r.mailbox = true := (s.can.tx.pending_iff _).mpr ⟨r, hr, rfl⟩
  rw [State.live, flagged_complete hp]
  cases ok with
  | true => simp
  | false =>
    have hab : r.aborting = true := ha.resolve_right nofun
    -- The mailbox has one request, and that is being aborted.
    have hany : (s.can.tx.complete r.mailbox false).requests.any (!·.aborting) =
        s.can.tx.requests.any (!·.aborting) := by
      simp only [Transmitter.complete, dif_pos hp]
      rw [Bool.eq_iff_iff, List.any_eq_true, List.any_eq_true]
      constructor
      · rintro ⟨r', hr', h⟩
        exact ⟨r', List.mem_of_mem_filter hr', h⟩
      · rintro ⟨r', hr', h⟩
        refine ⟨r', List.mem_filter.mpr ⟨hr', bne_iff_ne.mpr fun hm ↦ ?_⟩, h⟩
        have hnd := (List.nodup_append.mp s.can.tx.exclusive).1
        rw [List.inj_on_of_nodup_map hnd hr' hr hm, hab] at h
        contradiction
    rw [Bool.false_or, Bool.false_or]
    change (s.armed.isSome || (s.can.tx.complete r.mailbox false).requests.any _ || _) = s.live
    rw [hany]
    rfl

/-- Of the events only a success matters. -/
theorem live_event (s : State) (e : Event) :
    (s.exec (.event e)).live = (feeds (.event e, s) || s.live) := by
  have he := s.txEvent e
  generalize hu : (s.exec (.event e)).can.tx = u at he
  cases he with
  | idle _ n hidle =>
    have hf : feeds (.event e, s) = false := by
      cases e with
      | txOk m => exact hidle m rfl
      | _ => rfl
    simp only [hf, State.live, State.flagged, (s.exec_event e).2.2, hu]
    rfl
  | sent m hm =>
    obtain ⟨r, hr, rfl⟩ := (s.can.tx.pending_iff m).mp hm
    rw [show feeds (.event (.txOk r.mailbox), s) = true from hm]
    exact live_complete hr (.inr rfl)
  | aborted r hr ha =>
    have hex : s.exec (.event (.txAbort r.mailbox)) =
        s.onTx fun u ↦ u.complete r.mailbox false := congrArg (fun u ↦ s.onTx fun _ ↦ u) hu
    rw [hex]
    exact live_complete hr (.inl ha)

theorem liveLog_stable : Stable device LiveLog := by
  intro e s t h
  apply h.step (u := s.exec (.event e)) rfl
  rw [live_event]
  change _ = !(false || !s.live && !feeds (.event e, s))
  cases s.live <;> simp

/-- Clearing `RQCP` of a mailbox hides its `TXOK`. -/
theorem liveLog_clearRQCP (m : Fin 3) : OpKeeps device LiveLog (.clearRQCP m) := by
  intro s t h
  apply h.step (u := s.exec (.clearRQCP m)) rfl
  rw [live_eq, live_eq, flagged_clearRQCP, flagged_split s m]
  change (!(s.spent && _)) = !(s.can.tx.txok m && s.spent && _ || _ && true)
  cases s.spent <;> cases s.can.tx.txok m <;> cases s.flagged (· != m) <;> rfl

/-! ### The handlers -/

/-- A queue that is empty has space for any transfer: what refuses is an error. -/
theorem blocked_of_refused {s : State} (h : Sound s) (he : s.canTxQ.empty = true)
    (hr : s.accepting = false) : s.can.blocked = true := by
  have hc : s.canTxQ.count = 0 := by
    rw [← Queue.length_contents, (Queue.empty_iff h.queue).mp he]
    rfl
  have hsp : s.canTxQ.space = canTxQCapacity := by
    rw [Queue.space_eq h.queue, h.size, hc, Nat.sub_zero]
  simpa [State.accepting, hsp, canTxQCapacity, canifOutDataSize] using hr

/-- Reception is accepted, and then something is outstanding; or it is refused, for an error or
because frames are queued. -/
private theorem liveLog_receive : Triple (fun s t ↦ Looked LiveLog s t ∧ SoundLog s t)
    canIfReceiveOutData fun _ ↦ LiveLog := by
  have fed : Stable device fun _ t ↦
      stopped t = false → posting.after t = false ∧ starved t = false := by
    intro e s t h hst
    obtain ⟨hp, hs⟩ := h (not_stopped_concat hst).1
    refine ⟨(Monitor.after_concat _ _ _).trans hp, ?_⟩
    rw [starved_concat, hs]
    rfl
  refine canIfReceiveOutData_rule ((looked_stable liveLog_stable).and soundLog_stable) fed ?_ ?_ ?_
  · rintro s t ⟨h, hsound⟩ hr
    by_cases he : s.canTxQ.empty = true
    · refine fun _ ↦ ⟨Monitor.after_concat _ _ _, ?_⟩
      rw [starved_concat, live_eq]
      simp [starves, feeds, blocked_of_refused hsound.1 he hr, he]
    · refine (h.resolve_left he).same rfl rfl ?_ ?_ <;> simp [starves, feeds, he, hr]
  · intro s t _ hgo _
    have hb : s.can.blocked = false := by
      simpa using (Bool.and_eq_true_iff.mp hgo).2
    refine ⟨Monitor.after_concat _ _ _, ?_⟩
    rw [starved_concat]
    simp [starves, feeds, hb, hgo]
  · intro s t h g _ hst
    obtain ⟨hp, hs⟩ := h (not_stopped_concat hst).1
    refine ⟨(Monitor.after_concat _ _ _).trans hp, ?_⟩
    have harm : (s.exec (.usbReceive g)).armed.isSome = true := by
      simp only [State.exec]
      cases s.armed <;> rfl
    rw [starved_concat, hs, State.live, harm]
    rfl

private theorem liveLog_tail : Triple SoundLog (do canPostFrames; canIfReceiveOutData)
    fun _ s t ↦ LiveLog s t ∧ SoundLog s t := by
  refine Triple.bind (looked_canPostFrames fun s t hfull _ ↦ ⟨?_, ?_⟩) fun _ ↦
    (liveLog_receive.and soundLog_receive).pre fun _ _ h ↦ ⟨h, h.2⟩
  · rw [Monitor.after_concat]
    simp [posting, hfull]
  · rw [starved_concat, live_of_full hfull]
    simp [starves, feeds, hfull]

/-- With the invariant of the OUT pipe. -/
def LiveSound (s : State) (t : Log) : Prop := LiveLog s t ∧ SoundLog s t

/-- With all requests being aborted, what is left is a transfer or a flag. -/
theorem liveLog_resetTxQ {s : State} {t : Log}
    (h : stopped t = false → posting.after t = false)
    (hall : ∀ r ∈ s.can.tx.requests, r.aborting = true) :
    LiveLog (s.exec .resetTxQ) (t ++ [(.resetTxQ, s)]) := by
  refine fun hst ↦ ⟨(Monitor.after_concat _ _ _).trans (h (not_stopped_concat hst).1), ?_⟩
  have hspent : s.spent = s.armed.isNone := by
    rw [State.spent, List.all_eq_true.mpr hall, Bool.and_true]
  change s.live = _
  rw [starved_concat, live_eq, hspent]
  simp [starves, feeds]

private theorem liveLog_canBusError : Keeps LiveLog canBusError := by
  have aborting : Stable device fun _ t ↦ stopped t = false → posting.after t = false :=
    fun _ _ _ h hst ↦ (Monitor.after_concat _ _ _).trans (h (not_stopped_concat hst).1)
  exact canBusError_rule liveLog_stable liveLog_stable aborting
    (fun _ _ h ↦ h.same rfl rfl rfl rfl) (fun _ _ _ _ h ↦ h.same rfl rfl rfl rfl)
    (fun _ _ h ↦ h) (fun _ _ h ↦ h.same rfl rfl rfl rfl) (fun _ _ h hst ↦ (h hst).1)
    (fun _ _ _ h hst ↦ (Monitor.after_concat _ _ _).trans (h (not_stopped_concat hst).1))
    fun _ _ h hall ↦ liveLog_resetTxQ h hall

private theorem liveLog_stop {s s' : State} {t : Log} : LiveLog s (t ++ [(.stop, s')]) :=
  fun hst ↦ absurd rfl (not_stopped_concat hst).2

private theorem liveSound_out (bytes : List UInt8) : Keeps LiveSound (outCompletion bytes) :=
  outCompletion_rule (L := fun _ _ _ _ ↦ True) (M := fun _ _ ↦ True) (fun _ _ h ↦ h)
    (fun _ _ _ _ _ _ _ ↦ trivial) (fun _ _ _ _ _ _ _ _ _ _ _ ↦ trivial)
    (fun _ _ _ _ _ _ _ _ _ _ _ _ _ ↦ liveLog_stop) (fun _ _ _ _ _ _ _ _ ↦ liveLog_stop)
    (fun _ _ _ _ _ _ _ ↦ trivial) (liveLog_tail.pre fun _ _ h ↦ h.2)

private theorem liveSound_plain {o : Op} (h : OpKeeps device LiveLog o)
    (ho : o.plain = true) : OpKeeps device LiveSound o :=
  fun s t hs ↦ ⟨h s t hs.1, SoundLog.plain ho s t hs.2⟩

theorem liveSound_kept : Kept LiveSound where
  stable := fun e ↦ liveSound_plain (liveLog_stable e) rfl
  tsr := liveSound_plain liveLog_tsr rfl
  rfr := liveSound_plain (fun _ _ h ↦ h.same rfl rfl rfl rfl) rfl
  fifo := liveSound_plain (fun _ _ h ↦ h.same rfl rfl rfl rfl) rfl
  esr := liveSound_plain (fun _ _ h ↦ h.same rfl rfl rfl rfl) rfl
  message _ _ := liveSound_plain (fun _ _ h ↦ h.same rfl rfl rfl rfl) rfl
  release := liveSound_plain (fun _ _ h ↦ h.same rfl rfl rfl rfl) rfl
  completion := liveSound_plain (fun _ _ h ↦ h.same rfl rfl rfl rfl) rfl
  out := liveSound_out
  sent := looked_canFrameSent liveLog_stable (fun _ _ _ h hok ↦ h.same rfl hok rfl rfl)
    (fun _ _ _ h ↦ h.same rfl rfl rfl rfl) liveLog_clearRQCP liveLog_tail
  error := liveLog_canBusError.and soundLog_kept.error

/-- A successful `CanIf_Open` empties the queue and evaluates reception. -/
theorem liveSound_canIfOpen : Triple SoundLog (canIfOpen true true) fun _ ↦ LiveSound := by
  have opens : Triple SoundLog (canIfOpen true true) fun _ ↦ LiveLog :=
    canIfOpen_rule (S := fun s t ↦ s.canTxQ.empty = true ∧ SoundLog s t) soundLog_stable
      soundLog_stable soundLog_reset (fun s t h ↦ ⟨rfl, soundLog_canStart s t h⟩)
      (fun s t h ↦ ⟨.inl h.1, soundLog_emptyBuffers s t h.2⟩) liveLog_receive
  exact (opens.and (soundLog_canIfOpen true true)).pre fun _ _ h ↦ ⟨h, h⟩

/-! ### Runs -/

/-- In every session after a successful `CanIf_Open`. -/
theorem liveSound_session (mailboxes : Fin 3 → TxMailBox) (txq : Nat → TxMailBox)
    (inb outb : Nat → UInt8) (before : List Step) (script : List (List Event))
    {steps : List Step} (session : ∀ a ∈ steps, a.action.inSession = true) {c : Config}
    (hc : c = run (boot mailboxes txq inb outb)
      (before ++ [⟨.canIfOpen true true, script⟩] ++ steps)) : LiveSound c.state c.trace :=
  opened_session liveSound_kept liveSound_canIfOpen mailboxes txq inb outb before script session hc

/-- After a successful `CanIf_Open`, and as long as no message was met that is not valid,
something will evaluate reception again, exactly as long as the pipe is not starved. -/
theorem outPipe_live (mailboxes : Fin 3 → TxMailBox) (txq : Nat → TxMailBox)
    (inb outb : Nat → UInt8) (before : List Step) (script : List (List Event))
    (steps : List Step) (session : ∀ a ∈ steps, a.action.inSession = true) (c : Config)
    (hc : c = run (boot mailboxes txq inb outb)
      (before ++ [⟨.canIfOpen true true, script⟩] ++ steps)) (valid : stopped c.trace = false) :
    c.state.live = true ↔ starved c.trace = false := by
  obtain ⟨h, -⟩ := liveSound_session mailboxes txq inb outb before script session hc
  rw [(h valid).2, Bool.not_eq_true']

/-- The status is passive when the first transfer has been processed, so that reception is refused,
and an error aborts the frame that was posted; but it is transmitted after all. -/
def fedAgain : List Step :=
  [⟨.epOutComplete [5, 0, 1, 2, 7], [[], [], [], [.esr 2]]⟩, ⟨.event (.error 0x12), []⟩,
    ⟨.busError, []⟩, ⟨.event (.txOk 0), []⟩, ⟨.event (.esr 0), []⟩, ⟨.frameSent, []⟩]

/-- Its acknowledgement arms the next transfer. -/
theorem outPipe_live_cleared :
    (run (boot (fun _ ↦ ⟨0, 0, 0, 0⟩) (fun _ ↦ ⟨0, 0, 0, 0⟩) (fun _ ↦ 0) fun _ ↦ 0)
      ([] ++ [⟨.canIfOpen true true, []⟩] ++ fedAgain)).state.live = true :=
  (outPipe_live (fun _ ↦ ⟨0, 0, 0, 0⟩) (fun _ ↦ ⟨0, 0, 0, 0⟩) (fun _ ↦ 0) (fun _ ↦ 0) [] []
    fedAgain (by decide) _ rfl (by decide +kernel)).mpr (by decide +kernel)

/-- An error makes the status passive, and a transfer completes while it is: reception is
refused with nothing else outstanding, and nothing evaluates it once the status is clear. -/
def wedged : List Step :=
  [⟨.event (.error 0x12), []⟩, ⟨.busError, []⟩, ⟨.epOutComplete [5, 0], []⟩,
    ⟨.event (.esr 0), []⟩]

/-- Nothing is outstanding although no message was met that is not valid and no error that
blocks is flagged. -/
theorem outPipe_wedges :
    ¬ ∀ mailboxes txq inb outb before script steps,
      (∀ a ∈ steps, a.action.inSession = true) → ∀ c,
      c = run (boot mailboxes txq inb outb)
        (before ++ [⟨.canIfOpen true true, script⟩] ++ steps) →
      stopped c.trace = false → c.state.can.blocked = false → c.state.live = true := by
  intro h
  have hn := h (fun _ ↦ ⟨0, 0, 0, 0⟩) (fun _ ↦ ⟨0, 0, 0, 0⟩) (fun _ ↦ 0) (fun _ ↦ 0) [] [] wedged
    (by decide) _ rfl
  revert hn
  decide +kernel

/-- Three frames fill the mailboxes and are being aborted; when the status is clear again, two
transfers of thirty-two frames fill the queue behind them. -/
def wedgedFull : List Step :=
  [⟨.epOutComplete [4, 2, 0, 1, 4, 2, 0, 2, 4, 2, 0, 3], []⟩, ⟨.event (.error 0x12), []⟩,
    ⟨.busError, []⟩, ⟨.event (.esr 0), []⟩,
    ⟨.epOutComplete (List.replicate 32 [4, 2, 0, 4]).flatten, []⟩,
    ⟨.epOutComplete (List.replicate 32 [4, 2, 0, 4]).flatten, []⟩]

/-- Reception has been refused for lack of space, and only aborts are to come. -/
example : (run (boot (fun _ ↦ ⟨0, 0, 0, 0⟩) (fun _ ↦ ⟨0, 0, 0, 0⟩) (fun _ ↦ 0) fun _ ↦ 0)
    ([⟨.canIfOpen true true, []⟩] ++ wedgedFull)).state.live = false := by
  decide +kernel

end CanDybug
