import CanDybug.Out.Posting

/-!
# Transmission while it is blocked

Where `Can_BusError` reads error passive or bus off it requests the abort of all mailboxes and
resets the queue, and `CanIf_ReceiveOutData` arms no transfer while either is flagged. But a
transfer armed before may still complete; its frames are queued, and `Can_PostFrames` asks for
an empty mailbox only.
-/

namespace CanDybug

open Base

/-- Writing a mailbox or requesting its transmission. -/
def Op.starts : Op → Bool
  | postFrame _ | setTXRQ _ => true
  | _ => false

/-- Whether transmission is blocked: from the end of `Can_BusError`, if error passive or bus
off is flagged, until neither is. -/
def halted : Monitor State Op Bool where
  start := false
  next b e := (b || e.1 == .resetTxQ) && (e.2.exec e.1).can.blocked

/-- Whether a message has been accepted since the queue was reset. -/
def restocked : Monitor State Op Bool where
  start := true
  next b e :=
    match e.1 with
    | .canStart | .resetTxQ => false
    | .handleRequest msg length => b || e.2.accepts msg length
    | _ => b

/-- Nothing is started while transmission is blocked. -/
def NoStart (t : Log) : Prop := halted.Along (fun b e ↦ b = true → e.1.starts = false) t

/-- Where transmission is blocked and a message has been accepted since, no mailbox is empty
when `Can_PostFrames` looks. -/
def FindsFull (t : Log) : Prop :=
  ((posting.both restocked).both halted).Along
    (fun b e ↦ b = ((true, true), true) → e.1 = .read .tsr → e.2.can.tx.anyEmpty = false) t

instance decidableNoStart (t : Log) : Decidable (NoStart t) :=
  inferInstanceAs (Decidable (Monitor.Along _ _ _))

instance decidableFindsFull (t : Log) : Decidable (FindsFull t) :=
  inferInstanceAs (Decidable (Monitor.Along _ _ _))

theorem noStart_concat (t : Log) (e : Op × State) :
    NoStart (t ++ [e]) ↔ NoStart t ∧ (halted.after t = true → e.1.starts = false) :=
  Monitor.along_concat t e

theorem noStart_nil : NoStart [] := Monitor.along_nil

-- From here on by these two, so that a run is not evaluated where one is stated.
attribute [irreducible] NoStart

theorem findsFull_concat (t : Log) (e : Op × State) :
    FindsFull (t ++ [e]) ↔ FindsFull t ∧ (((posting.after t, restocked.after t), halted.after t) =
      ((true, true), true) → e.1 = .read .tsr → e.2.can.tx.anyEmpty = false) := by
  apply (Monitor.along_concat t e).trans
  rw [Monitor.after_both, Monitor.after_both]
  rfl

/-- Nothing has been started while transmission was blocked, or a mailbox was found empty;
and the queue is empty until a message is accepted. -/
structure Halting (s : State) (t : Log) : Prop where
  noStart : FindsFull t → NoStart t
  idle : restocked.after t = false → s.canTxQ.empty = true

/-- Until `Can_PostFrames` has come. -/
def HaltingDue (s : State) (t : Log) : Prop := Halting s t ∧ posting.after t = true

/-! ### Operations -/

theorem Halting.concat {s s' : State} {t : Log} (h : Halting s t) {e : Op × State}
    (ho : e.1.starts = false)
    (hq : restocked.after (t ++ [e]) = false → s'.canTxQ.empty = true) :
    Halting s' (t ++ [e]) := by
  refine ⟨fun hf ↦ ?_, hq⟩
  rw [noStart_concat]
  exact ⟨h.noStart ((findsFull_concat t e).mp hf).1, fun _ ↦ ho⟩

/-- Operations that neither start anything nor concern the queue. -/
def Op.benign : Op → Bool
  | postFrame _ | setTXRQ _ | canStart | resetTxQ | handleRequest _ _ => false
  | _ => true

theorem Halting.benign {o : Op} (ho : o.benign = true) : OpKeeps device Halting o := by
  intro s t h
  have hs : o.starts = false := by
    cases o <;> first | rfl | contradiction
  have hq : (s.exec o).canTxQ = s.canTxQ := by
    cases o with
    | event e => exact (s.exec_event e).1
    | deliver bytes => exact (s.exec_delivered bytes).2
    | postFrame | setTXRQ | canStart | resetTxQ | handleRequest => contradiction
    | _ => rfl
  have hr : restocked.after (t ++ [(o, s)]) = restocked.after t := by
    rw [Monitor.after_concat]
    cases o <;> first | rfl | contradiction
  refine h.concat hs fun hf ↦ ?_
  change (s.exec o).canTxQ.empty = true
  rw [hq]
  exact h.idle (hr ▸ hf)

theorem Halting.reset {s s' : State} {t : Log} (h : Halting s t) {e : Op × State}
    (ho : e.1.starts = false) (hq : s'.canTxQ = s.canTxQ.reset) : Halting s' (t ++ [e]) :=
  h.concat ho fun _ ↦ by rw [hq]; rfl

theorem halting_stable : Stable device Halting := fun _ ↦ Halting.benign rfl

theorem haltingDue_stable : Stable device HaltingDue := fun e s t h ↦
  ⟨halting_stable e s t h.1, (Monitor.after_concat _ _ _).trans h.2⟩

/-- A message that is not accepted leaves the ends of the queue where they are. -/
theorem Halting.handleRequest {s : State} {t : Log} (h : Halting s t) (hq : s.canTxQ.WellFormed)
    (msg length : Nat) :
    Halting (s.exec (.handleRequest msg length)) (t ++ [(.handleRequest msg length, s)]) := by
  refine h.concat rfl fun hr ↦ ?_
  rw [Monitor.after_concat] at hr
  obtain ⟨hr, ha⟩ := Bool.or_eq_false_iff.mp hr
  obtain ⟨-, buffer, he, -⟩ := rejected_spec hq ha
  rw [he]
  exact h.idle hr

/-! ### `Can_PostFrames` -/

/-- A mailbox was found empty: transmission is not blocked then, or the condition is broken. -/
private def Posting (s : State) (t : Log) : Prop :=
  HaltingDue s t ∧ (FindsFull t → halted.after t = false) ∧ restocked.after t = true

private theorem posting_concat {s s' : State} {t : Log} (h : Posting s t) {e : Op × State}
    (hb : (e.1 == .resetTxQ) = false) (hp : posting.next true e = true)
    (hr : restocked.next true e = true) : Posting s' (t ++ [e]) := by
  obtain ⟨⟨h, hd⟩, hn, hf⟩ := h
  have hf' : restocked.after (t ++ [e]) = true := by rw [Monitor.after_concat, hf, hr]
  refine ⟨⟨⟨fun hc ↦ ?_, fun hc ↦ ?_⟩, ?_⟩, fun hc ↦ ?_, hf'⟩
  · have ht := ((findsFull_concat t e).mp hc).1
    refine (noStart_concat t e).mpr ⟨h.noStart ht, fun hb ↦ ?_⟩
    rw [hn ht] at hb
    contradiction
  · rw [hf'] at hc
    contradiction
  · rw [Monitor.after_concat, hd, hp]
  · have ht := hn ((findsFull_concat t e).mp hc).1
    rw [Monitor.after_concat, ht]
    simp [halted, hb]

theorem halting_canPostFrames :
    Triple (fun s t ↦ HaltingDue s t ∧ s.canTxQ.WellFormed) canPostFrames fun _ ↦ Halting := by
  have hw : Stable device Posting := fun e s t h ↦ posting_concat h rfl rfl rfl
  refine canPostFrames_rule haltingDue_stable (fun _ ↦ hw) (fun _ ↦ hw) (fun _ _ h _ ↦ h.1)
    (fun s t h _ _ ↦ Halting.benign (o := .read .tsr) rfl s t h.1) ?_
    (fun _ _ _ h _ ↦ posting_concat h rfl rfl rfl)
    fun _ _ _ h ↦ (posting_concat h rfl rfl rfl).1
  -- The queue is not empty, so a message has been accepted since it was reset.
  intro s t ⟨h, hd⟩ he ha
  have hr : restocked.after t = true := by
    by_contra hr
    rw [h.idle (by simpa using hr)] at he
    contradiction
  refine ⟨⟨Halting.benign (o := .read .tsr) rfl s t h, ?_⟩, fun hc ↦ ?_, ?_⟩
  · rw [Monitor.after_concat, hd]
    simpa [posting] using ha
  · obtain ⟨-, hc⟩ := (findsFull_concat t _).mp hc
    have hh : halted.after t = false := by
      by_contra hh
      have hfull := hc (by simp [hd, hr, hh]) rfl
      rw [ha] at hfull
      contradiction
    rw [Monitor.after_concat, hh]
    rfl
  · rw [Monitor.after_concat, hr]
    rfl

/-! ### The handlers -/

/-- With the invariant of the OUT pipe. -/
private def HaltingSound (s : State) (t : Log) : Prop := Halting s t ∧ SoundLog s t

private theorem haltingSound_benign {o : Op} (ho : o.benign = true) (hp : o.plain = true) :
    OpKeeps device HaltingSound o :=
  fun s t h ↦ ⟨Halting.benign ho s t h.1, SoundLog.plain hp s t h.2⟩

private theorem halting_receive : Keeps Halting canIfReceiveOutData :=
  keeps_canIfReceiveOutData halting_stable (Halting.benign rfl) fun _ ↦ Halting.benign rfl

private theorem haltingSound_tail :
    Triple (fun s t ↦ HaltingDue s t ∧ SoundLog s t) (do canPostFrames; canIfReceiveOutData)
      fun _ ↦ HaltingSound :=
  Triple.bind ((halting_canPostFrames.and soundLog_canPostFrames).pre fun _ _ h ↦
    ⟨⟨h.1, h.2.1.queue⟩, h.2⟩) fun _ ↦ halting_receive.and soundLog_receive

/-- Operations after which `Can_PostFrames` is still to come. -/
private theorem haltingDue_benign {o : Op} (ho : o.benign = true)
    (hp : ∀ s, posting.next true (o, s) = true) : OpKeeps device HaltingDue o :=
  fun s t h ↦ ⟨Halting.benign ho s t h.1, by rw [Monitor.after_concat, h.2]; exact hp s⟩

private theorem haltingDue_scanMailbox (m : Fin 3) : Keeps HaltingDue (scanMailbox m) := by
  refine keeps_scanMailbox haltingDue_stable (fun r hr ↦ ?_)
    (fun _ ↦ haltingDue_benign rfl fun _ ↦ rfl) (fun _ ↦ haltingDue_benign rfl fun _ ↦ rfl) m
  refine haltingDue_benign rfl fun s ↦ ?_
  cases r <;> first | rfl | contradiction

private theorem haltingSound_canFrameSent : Keeps HaltingSound canFrameSent := by
  refine canFrameSent_rule (S := fun s t ↦ HaltingDue s t ∧ SoundLog s t) (fun m ↦ ?_)
    (fun m ↦ (haltingDue_scanMailbox m).and (soundLog_scanMailbox m)) haltingSound_tail
    fun _ _ h ↦ h
  have sent : Triple Halting (scanMailbox m) fun sent s t ↦
      if sent = true then HaltingDue s t else Halting s t := by
    have read (r : Register) : OpKeeps device Halting (.read r) := Halting.benign rfl
    refine scanMailbox_sent halting_stable haltingDue_stable halting_stable m
      (fun s t h hok ↦ ⟨read (.txok m) s t h, ?_⟩)
      (fun s t h _ ↦ read (.txok m) s t h)
      (haltingDue_benign rfl fun _ ↦ rfl) (fun _ ↦ haltingDue_benign rfl fun _ ↦ rfl)
      (haltingDue_benign rfl fun _ ↦ rfl) (fun s t h _ ↦ read (.rqcp m) s t h)
      (fun s t h _ ↦ read (.rqcp m) s t h) (Halting.benign (o := .clearRQCP m) rfl)
    rw [Monitor.after_concat]
    exact Bool.or_eq_true_iff.mpr (.inr hok)
  refine (sent.and (soundLog_scanMailbox m)).post fun sent s t h ↦ ?_
  split
  · next hs => exact ⟨by simpa [hs] using h.1, h.2⟩
  · next hs => exact ⟨by simpa [hs] using h.1, h.2⟩

private theorem haltingSound_out (bytes : List UInt8) :
    Keeps HaltingSound (outCompletion bytes) := by
  refine outCompletion_rule (L := fun _ _ ↦ HaltingDue) (M := HaltingDue) (fun _ _ h ↦ h) ?_ ?_ ?_
    ?_ ?_ haltingSound_tail
  · intro g s t _ h _ _
    rw [loopEntries, List.append_cons]
    have hd : HaltingDue (s.exec (.deliver bytes)) (t ++ [(.deliver bytes, s)]) :=
      ⟨Halting.benign (o := .deliver bytes) rfl s t h, Monitor.after_concat _ _ _⟩
    exact haltingDue_benign (o := .sentinel _) rfl (fun _ ↦ rfl) _ _ hd
  · intro _ _ s t hr h _ _ _ _ _
    exact ⟨h.1.handleRequest hr.sound.1.queue _ _, (Monitor.after_concat _ _ _).trans h.2⟩
  · rintro _ _ s t hr h _ _ _ _ _ s' rfl
    exact Halting.benign (o := .stop) rfl _ _ (h.1.handleRequest hr.sound.1.queue _ _)
  · intro _ _ s t _ h _ _
    exact Halting.benign (o := .stop) rfl s t h.1
  · intro pbuf length s t _ h _
    exact haltingDue_benign (o := .moveFragment pbuf length) rfl (fun _ ↦ rfl) s t h

private theorem halting_canBusError : Keeps Halting canBusError :=
  keeps_canBusError halting_stable (Halting.benign rfl) (fun _ _ ↦ Halting.benign rfl)
    (Halting.benign rfl) (fun _ ↦ Halting.benign rfl) fun _ _ h ↦ h.reset rfl rfl

theorem haltingSound_kept : Kept HaltingSound where
  stable := fun _ ↦ haltingSound_benign rfl rfl
  tsr := haltingSound_benign rfl rfl
  rfr := haltingSound_benign rfl rfl
  fifo := haltingSound_benign rfl rfl
  esr := haltingSound_benign rfl rfl
  message _ _ := haltingSound_benign rfl rfl
  release := haltingSound_benign rfl rfl
  completion := haltingSound_benign rfl rfl
  out := haltingSound_out
  sent := haltingSound_canFrameSent
  error := halting_canBusError.and soundLog_kept.error

/-! ### Runs -/

private theorem halting_nil (s : State) : Halting s [] :=
  ⟨fun _ ↦ noStart_nil, fun h ↦ by contradiction⟩

/-- In every run, and since the last `CanIf_Open` or `Can_Close`: nothing is started while
transmission is blocked, as long as no mailbox is empty whenever `Can_PostFrames` looks after
a message was accepted in that time. -/
theorem blocked_noStart (mailboxes : Fin 3 → TxMailBox) (txq : Nat → TxMailBox)
    (inb outb : Nat → UInt8) (steps : List Step) (c : Config)
    (hc : c = run (boot mailboxes txq inb outb) steps) (full : FindsFull c.trace) :
    NoStart c.trace := by
  subst hc
  have hb : HaltingSound (boot mailboxes txq inb outb).state (boot mailboxes txq inb outb).trace :=
    ⟨halting_nil _, soundLog_boot mailboxes txq inb outb⟩
  refine (haltingSound_kept.run (fun b i ↦ ?_) (fun d ↦ ?_) hb steps).1.noStart full
  · exact (keeps_canIfOpen halting_stable (fun s _ _ ↦ halting_nil _)
      (fun _ _ h ↦ h.reset rfl rfl) (Halting.benign rfl) halting_receive b i).and
      (soundLog_canIfOpen b i)
  · exact (keeps_canClose halting_stable (fun s _ _ ↦ halting_nil _) (Halting.benign rfl) d).and
      (soundLog_canClose d)

/-- Three frames fill the mailboxes, an error makes the status passive, and a transfer armed
before it brings a fourth. -/
def heldBack : List Step :=
  [⟨.canIfOpen true true, []⟩, ⟨.epOutComplete [4, 2, 0, 1, 4, 2, 0, 2, 4, 2, 0, 3], []⟩,
    ⟨.event (.error 0x12), []⟩, ⟨.busError, []⟩, ⟨.epOutComplete [4, 2, 0, 4], []⟩]

/-- The fourth frame is queued, and the mailboxes are still being aborted. -/
theorem blocked_noStart_full :
    NoStart (run (boot (fun _ ↦ ⟨0, 0, 0, 0⟩) (fun _ ↦ ⟨0, 0, 0, 0⟩) (fun _ ↦ 0) fun _ ↦ 0)
      heldBack).trace :=
  blocked_noStart (fun _ ↦ ⟨0, 0, 0, 0⟩) (fun _ ↦ ⟨0, 0, 0, 0⟩) (fun _ ↦ 0) (fun _ ↦ 0) heldBack
    _ rfl (by decide +kernel)

/-- An error makes the status passive while a transfer is armed and nothing is requested. -/
def slipsThrough : List Step :=
  [⟨.event (.error 0x12), []⟩, ⟨.busError, []⟩, ⟨.epOutComplete [5, 0, 1, 2, 7], []⟩]

/-- The transfer completes, and its frame is written to a mailbox and requested. -/
theorem blocked_starts :
    ¬ ∀ mailboxes txq inb outb before script steps,
      (∀ a ∈ steps, a.action.inSession = true) → ∀ c,
      c = run (boot mailboxes txq inb outb)
        (before ++ [⟨.canIfOpen true true, script⟩] ++ steps) → NoStart c.trace := by
  intro h
  have hn := h (fun _ ↦ ⟨0, 0, 0, 0⟩) (fun _ ↦ ⟨0, 0, 0, 0⟩) (fun _ ↦ 0) (fun _ ↦ 0) [] []
    slipsThrough (by decide) _ rfl
  revert hn
  decide +kernel

end CanDybug
