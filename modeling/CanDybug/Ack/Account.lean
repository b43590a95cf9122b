import CanDybug.Ack.Flags

/-!
# Accounting for acknowledgements

A frame that a mailbox has transmitted is acknowledged, or its `TXOK` is still flagged, or
its acknowledgement is lost. It is lost where `Can_PostFrames` requests the next frame in a
mailbox whose `TXOK` has not been handled, and where `Can_FrameSent` clears `RQCP` although
`TXOK` has been set since it was read.
-/

namespace CanDybug

open Base

/-- The acknowledgement an operation loses. `RQCP` is cleared if it is read as set. -/
def lostBy (e : Op × State) : List UInt8 :=
  match e.1 with
  | .setTXRQ m | .read (.rqcp m) => e.2.can.tx.due (· == m)
  | _ => []

/-- The acknowledgements lost. -/
def lost (t : Log) : List UInt8 := t.flatMap lostBy

@[simp] theorem lost_concat (t : Log) (e : Op × State) : lost (t ++ [e]) = lost t ++ lostBy e := by
  simp [lost]

/-- Acknowledgements offered and flags still set are, by type, the frames transmitted. -/
def Accounted (s : State) (t : Log) : Prop :=
  (acks t ++ s.due).Perm ((transmitted t).map ackByte)

instance (s : State) (t : Log) : Decidable (Accounted s t) :=
  inferInstanceAs (Decidable (List.Perm _ _))

/-- No mailbox's `TXOK` is set where its next frame is requested, and none where its `RQCP`
is read after `TXOK` has been read as clear. -/
def FlagsHandled (t : Log) : Prop :=
  ∀ e ∈ t, ∀ m, e.1 = .setTXRQ m ∨ e.1 = .read (.rqcp m) → e.2.can.tx.txok m = false

theorem flagsHandled_iff (t : Log) : FlagsHandled t ↔ lost t = [] := by
  rw [lost, List.flatMap_eq_nil_iff]
  refine forall₂_congr fun e _ ↦ ⟨fun h ↦ ?_, fun h m hm ↦ ?_⟩
  · unfold lostBy
    split
    · next m he => exact (Transmitter.due_eq_nil _ m).mpr (h m (.inl he))
    · next m he => exact (Transmitter.due_eq_nil _ m).mpr (h m (.inr he))
    · rfl
  · apply (Transmitter.due_eq_nil _ m).mp
    rcases hm with hm | hm <;> simpa only [lostBy, hm] using h

/-! ### Every acknowledgement is offered, due or lost -/

/-- Acknowledgements offered, due for some of the mailboxes, and lost. -/
def Tally (p : Fin 3 → Bool) (s : State) (t : Log) : Prop :=
  (acks t ++ s.can.tx.due p ++ lost t).Perm ((transmitted t).map ackByte)

theorem Tally.event {p : Fin 3 → Bool} {s : State} {t : Log} (h : Tally p s t) (e : Event)
    (hp : ∀ m, s.can.tx.pending m = true → p m = true) :
    Tally p (s.exec (.event e)) (t ++ [(.event e, s)]) := by
  have ha : ackedBy (.event e, s) = [] := rfl
  have hl : lostBy (.event e, s) = [] := rfl
  rw [Tally, s.due_event e p hp, acks_concat, lost_concat, transmitted_concat, ha, hl,
    List.append_nil, List.append_nil, List.map_append, List.perm_iff_count]
  intro b
  have hb := h.count_eq b
  simp only [List.count_append] at hb ⊢
  omega

/-- Nothing is offered, transmitted or lost. -/
theorem Tally.same {p q : Fin 3 → Bool} {o : Op} {s s' : State} {t : Log} (h : Tally q s t)
    (hd : s'.can.tx.due p = s.can.tx.due q) (ha : ackedBy (o, s) = [])
    (ht : transmittedBy (o, s) = []) (hl : lostBy (o, s) = []) : Tally p s' (t ++ [(o, s)]) := by
  rw [Tally, hd, acks_concat, lost_concat, transmitted_concat, ha, ht, hl, List.append_nil,
    List.append_nil, List.append_nil]
  exact h

private theorem lostBy_quiet {o : Op} (h : o.quiet = true) (s : State) : lostBy (o, s) = [] := by
  unfold lostBy
  split
  · next he =>
    cases he
    contradiction
  · next he =>
    cases he
    contradiction
  · rfl

theorem Tally.quiet {p : Fin 3 → Bool} {o : Op} (ho : o.quiet = true) :
    OpKeeps device (Tally p) o := by
  intro s t h
  obtain ⟨-, hc, ha, ht⟩ := Op.quiet_spec ho s
  have hd : (device.exec o s).can.tx.due p = s.can.tx.due p := by
    rw [Transmitter.due, show (device.exec o s).can.tx.completed = _ from hc]
    rfl
  exact h.same hd ha ht (lostBy_quiet ho s)

/-- The flags of one mailbox move from what is due to what is lost. -/
theorem Tally.lose {p : Fin 3 → Bool} {o : Op} {s s' : State} {t : Log}
    (h : Tally (fun _ ↦ true) s t) (m : Fin 3) (hd : s'.can.tx.due p = s.can.tx.due (· != m))
    (ha : ackedBy (o, s) = []) (ht : transmittedBy (o, s) = [])
    (hl : lostBy (o, s) = s.can.tx.due (· == m)) : Tally p s' (t ++ [(o, s)]) := by
  rw [Tally, hd, acks_concat, lost_concat, transmitted_concat, ha, ht, hl, List.append_nil,
    List.append_nil, List.perm_iff_count]
  intro b
  have hb := h.count_eq b
  have hs := (s.can.tx.due_split m).count_eq b
  simp only [List.count_append] at hb hs ⊢
  omega

/-- The flag of one mailbox moves from what is due to what is offered. -/
theorem Tally.acknowledge {s : State} {t : Log} (h : Tally (fun _ ↦ true) s t) {c : Completion}
    (hc : c ∈ s.can.tx.completed) (ho : c.ok = true) :
    Tally (· != c.mailbox) (s.exec (.addMessage [ackByte c.held]))
      (t ++ [(.addMessage [ackByte c.held], s)]) := by
  have hl : lostBy (.addMessage [ackByte c.held], s) = [] := rfl
  have ht : transmittedBy (.addMessage [ackByte c.held], s) = [] := rfl
  have ha : ackedBy (.addMessage [ackByte c.held], s) = s.can.tx.due (· == c.mailbox) :=
    (Transmitter.due_one hc ho).symm
  rw [Tally, acks_concat, lost_concat, transmitted_concat, ha, ht, hl, List.append_nil,
    List.append_nil, List.perm_iff_count]
  intro b
  have hb := h.count_eq b
  have hs := (s.can.tx.due_split c.mailbox).count_eq b
  have hd : (s.exec (.addMessage [ackByte c.held])).can.tx = s.can.tx := rfl
  simp only [List.count_append, hd] at hb hs ⊢
  omega

/-- Between handlers all flags are due. -/
def TallyLog (s : State) (t : Log) : Prop := Tally (fun _ ↦ true) s t

private theorem tally_stable : Stable device TallyLog := fun e _ _ h ↦ h.event e fun _ _ ↦ rfl

-- A mailbox whose `RQCP` is set has no request, so its own flag cannot be set now.
private theorem tallyBut_stable (m : Fin 3) :
    Stable device fun s t ↦ s.can.tx.rqcp m = true ∧ Tally (· != m) s t := by
  rintro e s t ⟨hq, h⟩
  obtain ⟨c, hc, hm⟩ := (s.can.tx.rqcp_iff m).mp hq
  refine ⟨(Transmitter.rqcp_iff _ m).mpr ⟨c, State.completed_event e hc, hm⟩, h.event e ?_⟩
  rintro m' hp
  rw [bne_iff_ne]
  rintro rfl
  exact Transmitter.not_completed hp c hc hm

private theorem account_scanMailbox (m : Fin 3) :
    Keeps (fun s t ↦ LinkedLog s t ∧ TallyLog s t) (scanMailbox m) := by
  apply scanMailbox_rule m tally_stable tally_stable (tallyBut_stable m)
  · exact fun s t h _ ↦ Tally.quiet rfl s t h
  · exact fun s t h _ ↦ Tally.quiet rfl s t h
  · exact fun s t h ↦ Tally.quiet rfl s t h
  · rintro s t h c hc rfl ho
    exact h.acknowledge hc ho
  · exact fun s t h _ ↦ h.lose m rfl rfl rfl rfl
  · intro s t h hq
    have hd := (Transmitter.due_eq_nil _ m).mpr (Transmitter.txok_of_rqcp hq)
    exact h.same rfl rfl rfl hd
  · exact fun s t h ↦ h.same (Transmitter.due_clearRqcp _ m) rfl rfl rfl

private theorem tally_postOne :
    Triple (fun s t ↦ TallyLog s t ∧ s.canTxQ.empty = false) postOne fun _ ↦ TallyLog :=
  keeps_postOne tally_stable (Tally.quiet rfl) (fun _ _ _ h _ ↦ Tally.same h rfl rfl rfl rfl)
    fun m _ _ h ↦ h.lose m (Transmitter.due_request _ m) rfl rfl rfl

private theorem tally_start {s : State} (h : s.can.tx.completed = []) : TallyLog s [] := by
  rw [TallyLog, Tally, Transmitter.due, h]
  exact .nil

/-! ### Runs -/

theorem tally_run (mailboxes : Fin 3 → TxMailBox) (txq : Nat → TxMailBox)
    (inb outb : Nat → UInt8) (steps : List Step) :
    TallyLog (run (boot mailboxes txq inb outb) steps).state
      (run (boot mailboxes txq inb outb) steps).trace := by
  have h := quiet_run (linked_stable.and tally_stable)
    (fun o ho s t h ↦ ⟨linked_quiet ho s t h.1, Tally.quiet ho s t h.2⟩) account_scanMailbox
    ((keeps_canPostFrames linked_postOne).and (keeps_canPostFrames tally_postOne))
    (fun s hs ↦ ⟨linked_start hs, tally_start hs⟩) mailboxes txq inb outb steps
  exact h.2

/-- In every run, acknowledgements offered since the last `CanIf_Open` and flags still set are
the frames transmitted exactly if no flag was overwritten by a request or cleared unseen. -/
theorem accounted_iff (mailboxes : Fin 3 → TxMailBox) (txq : Nat → TxMailBox)
    (inb outb : Nat → UInt8) (steps : List Step) :
    Accounted (run (boot mailboxes txq inb outb) steps).state
        (run (boot mailboxes txq inb outb) steps).trace ↔
      FlagsHandled (run (boot mailboxes txq inb outb) steps).trace := by
  have h := tally_run mailboxes txq inb outb steps
  rw [flagsHandled_iff]
  constructor
  · intro ha
    have hl := h.length_eq.trans ha.length_eq.symm
    rw [List.length_append, State.due] at hl
    exact List.eq_nil_of_length_eq_zero (by omega)
  · intro hl
    rw [TallyLog, Tally, hl, List.append_nil] at h
    exact h

/-- Four frames in one transfer fill the mailboxes and leave one in the queue. One mailbox
transmits, and before its interrupt the next transfer refills it. -/
def refilled : List Step :=
  [⟨.canIfOpen true true, []⟩,
    ⟨.epOutComplete [5, 0, 1, 2, 7, 5, 0, 1, 2, 7, 5, 0, 1, 2, 7, 5, 0, 1, 2, 7], []⟩,
    ⟨.event (.txOk 0), []⟩, ⟨.epOutComplete [5], []⟩, ⟨.frameSent, []⟩]

/-- The frame is neither acknowledged nor flagged. -/
theorem accounted_refilled :
    ¬ ∀ mailboxes txq inb outb steps,
      Accounted (run (boot mailboxes txq inb outb) steps).state
        (run (boot mailboxes txq inb outb) steps).trace := by
  intro h
  have hn := h (fun _ ↦ ⟨0, 0, 0, 0⟩) (fun _ ↦ ⟨0, 0, 0, 0⟩) (fun _ ↦ 0) (fun _ ↦ 0) refilled
  revert hn
  decide +kernel

end CanDybug
