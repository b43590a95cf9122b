import CanDybug.Base.Monitor
import CanDybug.Out.Space

/-!
# Frames that wait in the queue

`Can_PostFrames` runs where a transfer has been processed to its end and where `Can_FrameSent`
has acknowledged a frame. It does not run where `CanIf_EpOutComplete` returns early, nor where
mailboxes became empty by aborts only. So a frame may wait in the queue while a mailbox is empty
and no `TXOK` is left that would post it. Stated here: the steps that strand a frame, those that
help it on, and that a frame waits so exactly if it has been stranded and not been helped since.
-/

namespace CanDybug

open Base

/-- `TXOK` of one of these mailboxes is flagged. -/
def State.flagged (s : State) (p : Fin 3 → Bool) : Bool :=
  (List.finRange 3).any fun m ↦ s.can.tx.txok m && p m

/-- Nothing is queued, or no mailbox is empty, or a `TXOK` is flagged. -/
def State.served (s : State) : Bool :=
  s.canTxQ.empty || !s.can.tx.anyEmpty || s.flagged fun _ ↦ true

/-- `ABRQ` of a mailbox that has a request. -/
def Transmitter.aborting (u : Transmitter) (m : Fin 3) : Bool :=
  u.requests.any fun r ↦ r.mailbox == m && r.aborting

/-- Whether the running handler is still to look for empty mailboxes: from a delivered
transfer or a `TXOK` read as set on, until none is found empty or the handler ends. -/
def posting : Monitor State Op Bool where
  start := false
  next due e :=
    match e.1 with
    | .deliver _ => true
    | .read (.txok m) => due || e.2.can.tx.txok m
    | .read .tsr => due && e.2.can.tx.anyEmpty
    | .stop | .receiveOutData => false
    | _ => due

/-- Whether a message of the transfer delivered last has been accepted. -/
def supplied : Monitor State Op Bool where
  start := false
  next b e :=
    match e.1 with
    | .deliver _ => false
    | .handleRequest msg length => b || e.2.accepts msg length
    | _ => b

/-- A transfer that has had a message accepted ends with one that is not valid; and, unless the
running handler is still to look for empty mailboxes, an abort takes effect while frames are
queued, or a `TXOK` that was not seen is cleared while frames are queued. All this with a mailbox
empty and no other `TXOK` flagged. -/
def strands (b : Bool × Bool) (e : Op × State) : Bool :=
  match e.1 with
  | .stop => b.2 && e.2.can.tx.anyEmpty && !e.2.flagged fun _ ↦ true
  | .event (.txAbort m) =>
    !b.1 && e.2.can.tx.aborting m && !e.2.canTxQ.empty && !e.2.flagged fun _ ↦ true
  | .clearRQCP m => !b.1 && e.2.can.tx.txok m && !e.2.canTxQ.empty && !e.2.flagged (· != m)
  | _ => false

/-- A frame is transmitted, `Can_PostFrames` finds no mailbox empty or has emptied the queue, or
the queue is reset. -/
def helps (e : Op × State) : Bool :=
  match e.1 with
  | .event (.txOk m) => e.2.can.tx.pending m
  | .read .tsr => !e.2.can.tx.anyEmpty
  | .receiveOutData => e.2.canTxQ.empty
  | .resetTxQ => true
  | _ => false

/-- A step has stranded a frame, and none has helped since. -/
def stranded (t : Log) : Bool := (posting.both supplied).since strands (fun _ ↦ helps) t

/-- No step strands a frame. -/
def NeverStrands (t : Log) : Prop :=
  (posting.both supplied).Along (fun b e ↦ strands b e = false) t

instance decidableNeverStrands (t : Log) : Decidable (NeverStrands t) :=
  inferInstanceAs (Decidable (Monitor.Along _ _ _))

theorem stranded_concat (t : Log) (e : Op × State) :
    stranded (t ++ [e]) =
      (strands (posting.after t, supplied.after t) e || stranded t && !helps e) := by
  rw [stranded, Monitor.since_concat, Monitor.after_both]
  rfl

theorem NeverStrands.not_stranded {t : Log} (h : NeverStrands t) : stranded t = false :=
  Monitor.since_of_along h

/-! ### The flags -/

theorem flagged_iff (s : State) (p : Fin 3 → Bool) :
    s.flagged p = true ↔ ∃ c ∈ s.can.tx.completed, c.ok = true ∧ p c.mailbox = true := by
  simp only [State.flagged, List.any_eq_true, List.mem_finRange, true_and, Bool.and_eq_true,
    Transmitter.txok_iff]
  constructor
  · rintro ⟨m, ⟨c, hc, rfl, hok⟩, hp⟩
    exact ⟨c, hc, hok, hp⟩
  · rintro ⟨c, hc, hok, hp⟩
    exact ⟨c.mailbox, ⟨c, hc, rfl, hok⟩, hp⟩

/-- The flags of one mailbox, and those of the others. -/
theorem flagged_split (s : State) (m : Fin 3) :
    s.flagged (fun _ ↦ true) = (s.can.tx.txok m || s.flagged (· != m)) := by
  rw [Bool.eq_iff_iff, Bool.or_eq_true, flagged_iff, flagged_iff, Transmitter.txok_iff]
  constructor
  · rintro ⟨c, hc, hok, -⟩
    by_cases hm : c.mailbox = m
    · exact .inl ⟨c, hc, hm, hok⟩
    · exact .inr ⟨c, hc, hok, bne_iff_ne.mpr hm⟩
  · rintro (⟨c, hc, -, hok⟩ | ⟨c, hc, hok, -⟩) <;> exact ⟨c, hc, hok, rfl⟩

/-- Clearing `RQCP` leaves the flags of the others. -/
theorem flagged_clearRQCP (s : State) (m : Fin 3) :
    (s.exec (.clearRQCP m)).flagged (fun _ ↦ true) = s.flagged (· != m) := by
  rw [Bool.eq_iff_iff, flagged_iff, flagged_iff]
  change (∃ c ∈ s.can.tx.completed.filter (·.mailbox != m), _) ↔ _
  simp only [List.mem_filter]
  grind

/-- A request that ends adds the flag of a success. -/
theorem flagged_complete {s : State} {m : Fin 3} (h : s.can.tx.pending m = true) (ok : Bool) :
    (s.onTx fun u ↦ u.complete m ok).flagged (fun _ ↦ true) =
      (ok || s.flagged fun _ ↦ true) := by
  rw [Bool.eq_iff_iff, Bool.or_eq_true, flagged_iff, flagged_iff]
  simp only [State.onTx, Transmitter.complete, dif_pos h, List.mem_append, List.mem_singleton,
    and_true]
  constructor
  · rintro ⟨c, hc | rfl, hok⟩
    · exact .inr ⟨c, hc, hok⟩
    · exact .inl hok
  · rintro (rfl | ⟨c, hc, hok⟩)
    · exact ⟨_, .inr rfl, rfl⟩
    · exact ⟨c, .inl hc, hok⟩

theorem anyEmpty_of_not_pending {u : Transmitter} {m : Fin 3} (h : u.pending m = false) :
    u.anyEmpty = true :=
  List.any_eq_true.mpr ⟨m, List.mem_finRange m, by rw [h]; rfl⟩

/-- A mailbox that has a flag is empty. -/
theorem anyEmpty_of_flagged {s : State} {p : Fin 3 → Bool} (h : s.flagged p = true) :
    s.can.tx.anyEmpty = true := by
  obtain ⟨c, hc, -, -⟩ := (flagged_iff s p).mp h
  apply anyEmpty_of_not_pending (m := c.mailbox)
  by_contra hp
  exact Transmitter.not_completed (by simpa using hp) c hc rfl

/-! ### Operations -/

/-- Between handlers: nothing is still to come, and all is served unless a frame is stranded. -/
def StrandLog (s : State) (t : Log) : Prop :=
  posting.after t = false ∧ s.served = !stranded t

theorem StrandLog.step {o : Op} {s u : State} {t : Log} (h : StrandLog s t)
    (hn : posting.next false (o, s) = false)
    (hs : u.served = !(strands (false, supplied.after t) (o, s) ||
      !s.served && !helps (o, s))) : StrandLog u (t ++ [(o, s)]) := by
  refine ⟨by rw [Monitor.after_concat, h.1, hn], Monitor.since_eq_concat h.2 ?_⟩
  rw [Monitor.after_both, h.1, hs]

/-- A step that strands and helps nothing. -/
theorem StrandLog.same {o : Op} {s s' : State} {t : Log} (h : StrandLog s t)
    (hs : s'.served = s.served) (hn : posting.next false (o, s) = false)
    (hst : ∀ b, strands (false, b) (o, s) = false) (hh : helps (o, s) = true → s.served = true) :
    StrandLog s' (t ++ [(o, s)]) := by
  apply h.step hn
  rw [hs, hst]
  cases hserved : s.served <;> cases hhelps : helps (o, s) <;> simp_all

theorem StrandLog.served {s : State} {t : Log} (h : StrandLog s t) (ht : NeverStrands t) :
    s.served = true := by
  rw [h.2, ht.not_stranded]
  rfl

/-- The queue is empty: nothing waits. -/
theorem served_of_empty {s : State} (h : s.canTxQ.empty = true) : s.served = true := by
  rw [State.served, h]
  rfl

theorem served_of_full {s : State} (h : s.can.tx.anyEmpty = false) : s.served = true := by
  rw [State.served, h]
  simp

theorem strandLog_tsr : OpKeeps device StrandLog (.read .tsr) := fun _ _ h ↦
  h.same rfl rfl (fun _ ↦ rfl) fun hh ↦ served_of_full (Bool.not_eq_eq_eq_not.mp hh)

/-- A request that ends leaves a mailbox empty. -/
private theorem served_complete {s : State} {m : Fin 3} (h : s.can.tx.pending m = true)
    (ok : Bool) : (s.onTx fun u ↦ u.complete m ok).served =
      (s.canTxQ.empty || ok || s.flagged fun _ ↦ true) := by
  have he : (s.can.tx.complete m ok).anyEmpty = true :=
    anyEmpty_of_not_pending (Transmitter.flags_complete h ok).2.2
  rw [State.served, flagged_complete h]
  change (s.canTxQ.empty || !(s.can.tx.complete m ok).anyEmpty || _) = _
  rw [he, Bool.not_true, Bool.or_false, Bool.or_assoc]

/-- Events that end no request. -/
private theorem strandLog_idle {s : State} {t : Log} (h : StrandLog s t) {e : Event}
    (hst : ∀ b, strands (false, b) (.event e, s) = false)
    (hh : helps (.event e, s) = false) (htx : ∃ n, (s.exec (.event e)).can.tx =
      { s.can.tx with next := n }) :
    StrandLog (s.exec (.event e)) (t ++ [(.event e, s)]) := by
  obtain ⟨n, htx⟩ := htx
  refine h.same ?_ rfl hst (by simp [hh])
  simp only [State.served, State.flagged, (s.exec_event e).1, htx]
  rfl

theorem strandLog_stable : Stable device StrandLog := by
  intro e s t h
  cases e with
  | txOk m =>
    by_cases hm : s.can.tx.pending m = true
    · apply h.step (u := s.onTx fun u ↦ u.complete m true) rfl
      change State.served _ = !(false || !s.served && !s.can.tx.pending m)
      rw [served_complete hm, hm]
      simp
    · refine strandLog_idle h (fun _ ↦ rfl) (by simpa [helps] using hm) ⟨s.can.tx.next, ?_⟩
      exact dif_neg hm
  | txAbort m =>
    by_cases hm : s.can.tx.aborting m = true
    · obtain ⟨r, hr, hrm⟩ := List.any_eq_true.mp hm
      have hp : s.can.tx.pending m = true := List.any_eq_true.mpr
        ⟨r, hr, (Bool.and_eq_true_iff.mp hrm).1⟩
      have he : s.exec (.event (.txAbort m)) = s.onTx fun u ↦ u.complete m false :=
        congrArg (fun u ↦ s.onTx fun _ ↦ u) (if_pos hm)
      apply h.step (u := s.exec (.event (.txAbort m))) rfl
      change State.served _ = !(s.can.tx.aborting m && !s.canTxQ.empty &&
        (!s.flagged fun _ ↦ true) || !s.served && true)
      rw [he, served_complete hp, hm, State.served]
      cases s.canTxQ.empty <;> cases s.flagged (fun _ ↦ true) <;> simp
    · refine strandLog_idle h (fun _ ↦ ?_) rfl ⟨s.can.tx.next, if_neg hm⟩
      simp [strands, hm]
  | rx frame =>
    refine strandLog_idle h (fun _ ↦ rfl) rfl ⟨s.can.tx.next, ?_⟩
    change (s.can.receive frame).tx = _
    unfold Can.receive
    split <;> rfl
  | next m => exact strandLog_idle h (fun _ ↦ rfl) rfl ⟨m, rfl⟩
  | rxFlags | esr | error | ready | fetch =>
    exact strandLog_idle h (fun _ ↦ rfl) rfl ⟨s.can.tx.next, rfl⟩

/-- Clearing `RQCP` of a mailbox hides its `TXOK`. -/
theorem strandLog_clearRQCP (m : Fin 3) : OpKeeps device StrandLog (.clearRQCP m) := by
  intro s t h
  apply h.step (u := s.exec (.clearRQCP m)) rfl
  change (s.canTxQ.empty || !s.can.tx.anyEmpty || (s.exec (.clearRQCP m)).flagged _) =
    !(s.can.tx.txok m && !s.canTxQ.empty && !s.flagged (· != m) || !s.served && true)
  rw [flagged_clearRQCP, State.served, flagged_split s m]
  -- A mailbox whose `TXOK` is flagged is empty.
  have hempty : s.can.tx.txok m = true → s.can.tx.anyEmpty = true := by
    intro h
    apply anyEmpty_of_flagged (s := s) (p := fun _ ↦ true)
    rw [flagged_split s m, h]
    rfl
  cases s.canTxQ.empty <;> cases htx : s.can.tx.txok m <;> cases s.flagged (· != m) <;>
    simp_all

theorem strandLog_setABRQ (m : Fin 3) : OpKeeps device StrandLog (.setABRQ m) := by
  refine fun s t h ↦ h.same ?_ rfl (fun _ ↦ rfl) nofun
  have hp (m' : Fin 3) : (s.can.tx.abort m).pending m' = s.can.tx.pending m' := by
    simp [Transmitter.pending, Transmitter.abort, Function.comp_def]
  have he : (s.can.tx.abort m).anyEmpty = s.can.tx.anyEmpty := by
    simp only [Transmitter.anyEmpty, hp]
  change (s.canTxQ.empty || !(s.can.tx.abort m).anyEmpty || s.flagged _) = s.served
  rw [he, State.served]

/-! ### The loop of `CanIf_EpOutComplete` -/

/-- Until a message has been accepted all is as before the transfer; from then on the queue is not
empty. What has been stranded before stays so. -/
private structure Stocking (s : State) (t : Log) : Prop where
  before : supplied.after t = false → s.served = !stranded t
  stocked : supplied.after t = true → s.canTxQ.empty = false
  waits : stranded t = true → s.served = false

private theorem Stocking.stop {s : State} {t : Log} (h : Stocking s t) :
    StrandLog (s.exec .stop) (t ++ [(.stop, s)]) := by
  refine ⟨Monitor.after_concat _ _ _, ?_⟩
  rw [stranded_concat]
  change s.served = !(supplied.after t && s.can.tx.anyEmpty && (!s.flagged fun _ ↦ true) ||
    stranded t && true)
  cases hs : supplied.after t with
  | false => simpa using h.before hs
  | true =>
    have hw := h.waits
    rw [State.served, h.stocked hs] at hw ⊢
    revert hw
    cases stranded t <;> cases s.can.tx.anyEmpty <;> cases s.flagged (fun _ ↦ true) <;> simp

/-- A message that is not accepted leaves the ends of the queue where they are. -/
private theorem Stocking.reject {s : State} {t : Log} (h : Stocking s t)
    (hq : s.canTxQ.WellFormed) {msg length : Nat} (ha : s.accepts msg length = false) :
    Stocking (s.exec (.handleRequest msg length)) (t ++ [(.handleRequest msg length, s)]) := by
  obtain ⟨-, buffer, hput, -⟩ := rejected_spec hq ha
  have he : (s.exec (.handleRequest msg length)).canTxQ.empty = s.canTxQ.empty := by rw [hput]; rfl
  have hs : (s.exec (.handleRequest msg length)).served = s.served := by
    rw [State.served, he]
    rfl
  have hsup : supplied.after (t ++ [(.handleRequest msg length, s)]) = supplied.after t := by
    rw [Monitor.after_concat]
    change (supplied.after t || s.accepts msg length) = _
    rw [ha, Bool.or_false]
  have hstr : stranded (t ++ [(.handleRequest msg length, s)]) = stranded t := by
    rw [stranded_concat]
    exact Bool.and_true _
  refine ⟨?_, ?_, ?_⟩
  · rw [hsup, hstr, hs]
    exact h.before
  · rw [hsup, he]
    exact h.stocked
  · rw [hstr, hs]
    exact h.waits

private theorem Stocking.accept {s : State} {t : Log} (h : Stocking s t)
    (hq : s.canTxQ.WellFormed) {msg length : Nat} (hroom : s.canTxQ.count < s.canTxQ.size)
    (ha : s.accepts msg length = true) :
    Stocking (s.exec (.handleRequest msg length)) (t ++ [(.handleRequest msg length, s)]) := by
  obtain ⟨-, mb, -, -, hput⟩ := accepted_spec hq ha
  have he : (s.exec (.handleRequest msg length)).canTxQ.empty = false := by
    rw [hput, ← Bool.not_eq_true, Queue.empty_iff (hq.put mb), Queue.contents_put hq hroom]
    simp
  have hsup : supplied.after (t ++ [(.handleRequest msg length, s)]) = true := by
    rw [Monitor.after_concat]
    change (supplied.after t || s.accepts msg length) = _
    rw [ha, Bool.or_true]
  refine ⟨fun hf ↦ ?_, fun _ ↦ he, fun hst ↦ ?_⟩
  · rw [hsup] at hf
    contradiction
  · rw [stranded_concat] at hst
    have hs := h.waits ((Bool.and_true _).symm.trans hst)
    simp only [State.served, Bool.or_eq_false_iff] at hs
    change ((s.exec (.handleRequest msg length)).canTxQ.empty || !s.can.tx.anyEmpty ||
      s.flagged _) = false
    rw [he, hs.1.2, hs.2]
    rfl

/-- Nothing has been accepted when the loop starts. -/
private theorem stocking_start {s : State} {t : Log} (h : StrandLog s t) {bytes : List UInt8}
    {g : Region} : Stocking (loopStart s bytes g) (t ++ loopEntries s bytes g) := by
  have hs : (loopStart s bytes g).served = s.served := by
    obtain ⟨hcan, hqueue⟩ := s.exec_delivered bytes
    change State.served (s.exec (.deliver bytes)) = _
    simp only [State.served, State.flagged, hcan, hqueue]
  have hstr : stranded (t ++ loopEntries s bytes g) = stranded t := by
    rw [loopEntries, List.append_cons, stranded_concat, stranded_concat]
    exact (Bool.and_true _).trans (Bool.and_true _)
  have hsup : supplied.after (t ++ loopEntries s bytes g) = false := by
    rw [loopEntries, List.append_cons, Monitor.after_concat, Monitor.after_concat]
    rfl
  refine ⟨fun _ ↦ ?_, fun hf ↦ ?_, fun hst ↦ ?_⟩
  · rw [hs, hstr, h.2]
  · rw [hsup] at hf
    contradiction
  · rw [hs, h.2, ← hstr, hst]
    rfl

/-! ### The handlers -/

/-- Where `Can_PostFrames` has run: the queue is empty, or what is found where no mailbox is. -/
def Looked (X : Assertion State Op) : Assertion State Op :=
  fun s t ↦ s.canTxQ.empty = true ∨ X s t

theorem looked_stable {X : Assertion State Op} (h : Stable device X) :
    Stable device (Looked X) := fun e s t hl ↦
  hl.imp (fun he ↦ by rwa [show (device.exec (device.env e) s).canTxQ = s.canTxQ from
    (s.exec_event e).1]) (h e s t)

/-- Whatever went before, it ends where the queue is empty or where it finds no mailbox empty. -/
theorem looked_canPostFrames {X : Assertion State Op}
    (full : ∀ s t, s.can.tx.anyEmpty = false → X s (t ++ [(.read .tsr, s)])) :
    Triple SoundLog canPostFrames fun _ s t ↦ Looked X s t ∧ SoundLog s t := by
  have hs : Stable device fun _ _ ↦ True := fun _ _ _ _ ↦ trivial
  have post : Triple SoundLog canPostFrames fun _ ↦ Looked X :=
    (canPostFrames_rule (I := fun _ _ ↦ True) hs (fun _ ↦ hs) (fun _ ↦ hs)
      (fun _ _ _ he ↦ .inl he) (fun s t _ _ hfull ↦ .inr (full s t hfull))
      (fun _ _ _ _ _ ↦ trivial) (fun _ _ _ _ _ ↦ trivial) fun _ _ _ _ ↦ trivial).pre
      fun _ _ h ↦ ⟨trivial, h.1.queue⟩
  exact (post.and soundLog_canPostFrames).pre fun _ _ h ↦ ⟨h, h⟩

/-- Where `Can_FrameSent` sees no `TXOK`, reading and clearing flags is all it does; where it sees
one it looks for empty mailboxes in the end. -/
theorem looked_canFrameSent {X : Assertion State Op} (stable : Stable device X)
    (unseen : ∀ m s t, X s t → s.can.tx.txok m = false → X s (t ++ [(.read (.txok m), s)]))
    (rqcp : ∀ m, OpKeeps device X (.read (.rqcp m)))
    (clear : ∀ m, OpKeeps device X (.clearRQCP m))
    (tail : Triple SoundLog (do canPostFrames; canIfReceiveOutData) fun _ s t ↦
      X s t ∧ SoundLog s t) : Keeps (fun s t ↦ X s t ∧ SoundLog s t) canFrameSent := by
  refine canFrameSent_rule (S := SoundLog) (fun m ↦ ?_) soundLog_scanMailbox tail
    fun _ _ h ↦ h
  have sent : Triple X (scanMailbox m) fun sent s t ↦ if sent = true then True else X s t :=
    scanMailbox_sent stable (fun _ _ _ _ ↦ trivial) stable m (fun _ _ _ _ ↦ trivial) (unseen m)
      (fun _ _ _ ↦ trivial) (fun _ _ _ _ ↦ trivial) (fun _ _ _ ↦ trivial)
      (fun s t h _ ↦ rqcp m s t h) (fun s t h _ ↦ rqcp m s t h) (clear m)
  refine (sent.and (soundLog_scanMailbox m)).post fun sent s t h ↦ ?_
  split
  · exact h.2
  · next hs => exact ⟨by simpa [hs] using h.1, h.2⟩

private theorem strandLog_receive :
    Triple (Looked StrandLog) canIfReceiveOutData fun _ ↦ StrandLog := by
  have tested (s : State) (t : Log) (h : Looked StrandLog s t) :
      StrandLog s (t ++ [(.receiveOutData, s)]) := by
    by_cases he : s.canTxQ.empty = true
    · refine ⟨Monitor.after_concat _ _ _, ?_⟩
      rw [stranded_concat, served_of_empty he, show helps (.receiveOutData, s) = true from he]
      simp [strands]
    · exact (h.resolve_left he).same rfl rfl (fun _ ↦ rfl) fun hh ↦ absurd hh he
  exact canIfReceiveOutData_rule (looked_stable strandLog_stable) strandLog_stable
    (fun s t h _ ↦ tested s t h) (fun s t h _ ↦ tested s t h)
    fun _ _ h _ _ ↦ h.same rfl rfl (fun _ ↦ rfl) nofun

/-- Whatever went before, `Can_PostFrames` strands no frame. -/
private theorem strandLog_tail : Triple SoundLog (do canPostFrames; canIfReceiveOutData)
    fun _ s t ↦ StrandLog s t ∧ SoundLog s t := by
  refine Triple.bind (looked_canPostFrames fun s t hfull ↦ ⟨?_, ?_⟩) fun _ ↦
    strandLog_receive.and soundLog_receive
  · rw [Monitor.after_concat]
    simp [posting, hfull]
  · rw [stranded_concat, served_of_full hfull]
    simp [strands, helps, hfull]

/-- With the invariant of the OUT pipe. -/
def StrandSound (s : State) (t : Log) : Prop := StrandLog s t ∧ SoundLog s t

private theorem strandSound_plain {o : Op} (h : OpKeeps device StrandLog o)
    (ho : o.plain = true) : OpKeeps device StrandSound o :=
  fun s t hs ↦ ⟨h s t hs.1, SoundLog.plain ho s t hs.2⟩

private theorem strandSound_out (bytes : List UInt8) :
    Keeps StrandSound (outCompletion bytes) := by
  refine outCompletion_rule (L := fun _ _ ↦ Stocking) (M := fun _ _ ↦ True) (fun _ _ h ↦ h)
    (fun _ _ _ _ h _ _ ↦ stocking_start h) ?_ ?_ (fun _ _ _ _ _ h _ _ ↦ h.stop)
    (fun _ _ _ _ _ _ _ ↦ trivial) (strandLog_tail.pre fun _ _ h ↦ h.2)
  · intro _ _ _ _ hr h n _ hle _ ha
    obtain ⟨f, mb, hrow, -⟩ := accepted_spec hr.sound.1.queue ha
    exact h.accept hr.sound.1.queue (hr.space_pos hle hrow).2.2 ha
  · rintro _ _ _ _ hr h _ _ _ _ ha _ rfl
    exact (h.reject hr.sound.1.queue ha).stop

theorem strandSound_kept : Kept StrandSound where
  stable := fun e ↦ strandSound_plain (strandLog_stable e) rfl
  tsr := strandSound_plain strandLog_tsr rfl
  rfr := strandSound_plain (fun _ _ h ↦ h.same rfl rfl (fun _ ↦ rfl) nofun) rfl
  fifo := strandSound_plain (fun _ _ h ↦ h.same rfl rfl (fun _ ↦ rfl) nofun) rfl
  esr := strandSound_plain (fun _ _ h ↦ h.same rfl rfl (fun _ ↦ rfl) nofun) rfl
  message _ _ := strandSound_plain (fun _ _ h ↦ h.same rfl rfl (fun _ ↦ rfl) nofun) rfl
  release := strandSound_plain (fun _ _ h ↦ h.same rfl rfl (fun _ ↦ rfl) nofun) rfl
  completion := strandSound_plain (fun _ _ h ↦ h.same rfl rfl (fun _ ↦ rfl) nofun) rfl
  out := strandSound_out
  sent := looked_canFrameSent strandLog_stable
    (fun _ _ _ h hok ↦ h.same rfl hok (fun _ ↦ rfl) nofun)
    (fun _ _ _ h ↦ h.same rfl rfl (fun _ ↦ rfl) nofun) strandLog_clearRQCP strandLog_tail
  error := by
    refine (keeps_canBusError strandLog_stable (fun _ _ h ↦ h.same rfl rfl (fun _ ↦ rfl) nofun)
      (fun _ _ _ _ h ↦ h.same rfl rfl (fun _ ↦ rfl) nofun)
      (fun _ _ h ↦ h.same rfl rfl (fun _ ↦ rfl) nofun) strandLog_setABRQ fun s t h ↦ ?_).and
      soundLog_kept.error
    -- The queue is empty now.
    apply h.step (u := s.exec .resetTxQ) rfl
    rw [served_of_empty (s := s.exec .resetTxQ) rfl]
    simp [strands, helps]

/-- A successful `CanIf_Open` empties the queue. -/
theorem strandLog_canIfOpen (P : Assertion State Op) :
    Triple P (canIfOpen true true) fun _ ↦ StrandLog := by
  have hs : Stable device fun _ _ ↦ True := fun _ _ _ _ ↦ trivial
  exact (canIfOpen_rule (S := fun s _ ↦ s.canTxQ.empty = true) hs hs (fun _ _ _ ↦ trivial)
    (fun _ _ _ ↦ rfl) (fun _ _ h ↦ .inl h) strandLog_receive).pre fun _ _ _ ↦ trivial

/-! ### Runs -/

/-- In every session after a successful `CanIf_Open`. -/
theorem strandSound_session (mailboxes : Fin 3 → TxMailBox) (txq : Nat → TxMailBox)
    (inb outb : Nat → UInt8) (before : List Step) (script : List (List Event))
    {steps : List Step} (session : ∀ a ∈ steps, a.action.inSession = true) {c : Config}
    (hc : c = run (boot mailboxes txq inb outb)
      (before ++ [⟨.canIfOpen true true, script⟩] ++ steps)) :
    StrandSound c.state c.trace := by
  have opens : Triple SoundLog (canIfOpen true true) fun _ ↦ StrandSound :=
    ((strandLog_canIfOpen SoundLog).and (soundLog_canIfOpen true true)).pre fun _ _ h ↦ ⟨h, h⟩
  exact opened_session strandSound_kept opens mailboxes txq inb outb before script session hc

/-- After a successful `CanIf_Open` a frame waits in the queue only while no mailbox is empty or a
`TXOK` is flagged, exactly as long as no frame is stranded. -/
theorem queued_served (mailboxes : Fin 3 → TxMailBox) (txq : Nat → TxMailBox)
    (inb outb : Nat → UInt8) (before : List Step) (script : List (List Event))
    (steps : List Step) (session : ∀ a ∈ steps, a.action.inSession = true) (c : Config)
    (hc : c = run (boot mailboxes txq inb outb)
      (before ++ [⟨.canIfOpen true true, script⟩] ++ steps)) :
    c.state.served = true ↔ stranded c.trace = false := by
  obtain ⟨⟨-, h⟩, -⟩ :=
    strandSound_session mailboxes txq inb outb before script session hc
  rw [h, Bool.not_eq_true']

/-- Three frames fill the mailboxes and are aborted by an error; the transfer armed before
queues a fourth; one abort takes effect, but the next mailbox succeeds. -/
def helpedOn : List Step :=
  [⟨.epOutComplete [4, 2, 0, 1, 4, 2, 0, 2, 4, 2, 0, 3], []⟩, ⟨.event (.error 0x12), []⟩,
    ⟨.busError, []⟩, ⟨.epOutComplete [4, 2, 0, 4], []⟩, ⟨.event (.txAbort 0), []⟩,
    ⟨.event (.txOk 1), []⟩, ⟨.frameSent, []⟩]

/-- `Can_FrameSent` posts the fourth. -/
theorem queued_served_helped :
    (run (boot (fun _ ↦ ⟨0, 0, 0, 0⟩) (fun _ ↦ ⟨0, 0, 0, 0⟩) (fun _ ↦ 0) fun _ ↦ 0)
      ([] ++ [⟨.canIfOpen true true, []⟩] ++ helpedOn)).state.served = true :=
  (queued_served (fun _ ↦ ⟨0, 0, 0, 0⟩) (fun _ ↦ ⟨0, 0, 0, 0⟩) (fun _ ↦ 0) (fun _ ↦ 0) [] []
    helpedOn (by decide) _ rfl).mpr (by decide +kernel)

/-- `CanIf_EpOutComplete`, `Can_FrameSent` and `Can_BusError`. -/
def Action.transmits : Action → Bool
  | epOutComplete _ | frameSent | busError => true
  | _ => false

/-- A frame is accepted, and the message after it is not valid. -/
def strandedByStop : List Step := [⟨.epOutComplete [5, 0, 1, 2, 7, 0], []⟩]

/-- The frame is queued, all mailboxes are empty, and no `TXOK` is flagged. -/
theorem queued_strands :
    ¬ ∀ mailboxes txq inb outb before script steps last,
      (∀ a ∈ steps, a.action.transmits = true ∨ ∃ e, a.action = .event e) →
      steps.getLast? = some last → last.action.transmits = true → ∀ c,
      c = run (boot mailboxes txq inb outb)
        (before ++ [⟨.canIfOpen true true, script⟩] ++ steps) → c.state.served = true := by
  intro h
  have hn := h (fun _ ↦ ⟨0, 0, 0, 0⟩) (fun _ ↦ ⟨0, 0, 0, 0⟩) (fun _ ↦ 0) (fun _ ↦ 0) [] []
    strandedByStop _ (by simp [strandedByStop, Action.transmits]) rfl rfl _ rfl
  revert hn
  decide +kernel

/-- Three frames fill the mailboxes and are aborted by an error; the transfer armed before
queues a fourth; and the aborts take effect. -/
def strandedByAborts : List Step :=
  [⟨.epOutComplete [4, 2, 0, 1, 4, 2, 0, 2, 4, 2, 0, 3], []⟩, ⟨.event (.error 0x12), []⟩,
    ⟨.busError, []⟩, ⟨.epOutComplete [4, 2, 0, 4], []⟩, ⟨.event (.txAbort 0), []⟩,
    ⟨.event (.txAbort 1), []⟩, ⟨.event (.txAbort 2), []⟩, ⟨.frameSent, []⟩]

/-- `Can_FrameSent` finds no `TXOK`, and does not look at the queue. -/
example : (run (boot (fun _ ↦ ⟨0, 0, 0, 0⟩) (fun _ ↦ ⟨0, 0, 0, 0⟩) (fun _ ↦ 0) fun _ ↦ 0)
    ([⟨.canIfOpen true true, []⟩] ++ strandedByAborts)).state.served = false := by
  decide +kernel

end CanDybug
