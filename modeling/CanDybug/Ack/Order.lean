import CanDybug.Ack.Account
import CanDybug.Tx.Balance

/-!
# The order of acknowledgements

`Can_FrameSent` handles the mailboxes in the order of their indices, whatever the order in
which they completed. Its acknowledgements, which carry only a type, are in the order of
transmission as long as it never handles a mailbox before one of another type that completed
earlier.
-/

namespace CanDybug

open Base

/-- The acknowledgements due for mailboxes that completed before this one. -/
def Transmitter.earlier (u : Transmitter) (m : Fin 3) : List UInt8 :=
  ((u.completed.takeWhile (·.mailbox != m)).filter (·.ok)).map fun c ↦ ackByte c.held

/-- Whenever `Can_FrameSent` finds a mailbox's `TXOK` set, all frames that completed earlier
and are still flagged are of the same type. -/
def EarliestTaken (t : Log) : Prop :=
  ∀ e ∈ t, ∀ m, e.1 = .read (.txok m) →
    ∀ a ∈ e.2.can.tx.earlier m, ∀ b ∈ e.2.can.tx.due (· == m), a = b

instance (t : Log) : Decidable (FlagsHandled t) := inferInstanceAs (Decidable (∀ e ∈ t, _))

instance (t : Log) : Decidable (EarliestTaken t) := inferInstanceAs (Decidable (∀ e ∈ t, _))

private theorem acks_earliest {m : Fin 3} {a : UInt8} {cs : List Completion}
    (hn : (cs.map (·.mailbox)).Nodup) {c : Completion} (hc : c ∈ cs) (hm : c.mailbox = m)
    (ho : c.ok = true) (ha : ackByte c.held = a)
    (h : ∀ d ∈ cs.takeWhile (·.mailbox != m), d.ok = true → ackByte d.held = a) :
    (cs.filter (·.ok)).map (fun d ↦ ackByte d.held) =
      a :: (cs.filter fun d ↦ d.ok && d.mailbox != m).map fun d ↦ ackByte d.held := by
  induction cs with
  | nil => contradiction
  | cons d cs ih =>
    rw [List.map_cons, List.nodup_cons] at hn
    by_cases hd : d.mailbox = m
    · -- This is the mailbox, and none of the later completions is its.
      obtain rfl : c = d := by
        rcases List.mem_cons.mp hc with hc | hc
        · exact hc
        · exact absurd (List.mem_map.mpr ⟨c, hc, hm.trans hd.symm⟩) hn.1
      have hne : ∀ d ∈ cs, (d.ok && d.mailbox != m) = d.ok := by
        intro d hd'
        have : d.mailbox ≠ m := fun he ↦ hn.1 (List.mem_map.mpr ⟨d, hd', he.trans hm.symm⟩)
        simp [this]
      rw [List.filter_cons_of_pos (by simpa using ho), List.filter_cons_of_neg (by simp [hm]),
        List.filter_congr hne, List.map_cons, ha]
    · have hc' : c ∈ cs := by
        rcases List.mem_cons.mp hc with rfl | hc
        · exact absurd hm hd
        · exact hc
      have htake : (d :: cs).takeWhile (·.mailbox != m) = d :: cs.takeWhile (·.mailbox != m) :=
        List.takeWhile_cons_of_pos (by simpa using hd)
      rw [htake, List.forall_mem_cons] at h
      have hrest := ih hn.2 hc' h.2
      cases hok : d.ok with
      | true =>
        rw [List.filter_cons_of_pos hok, List.filter_cons_of_pos (by simp [hok, hd]), List.map_cons,
          List.map_cons, hrest, h.1 hok]
      | false =>
        rw [List.filter_cons_of_neg (by simp [hok]), List.filter_cons_of_neg (by simp [hok]), hrest]

/-- A mailbox of the type of everything that completed earlier may be taken first. -/
theorem Transmitter.due_earliest {u : Transmitter} {c : Completion} (hc : c ∈ u.completed)
    (ho : c.ok = true) (h : ∀ a ∈ u.earlier c.mailbox, a = ackByte c.held) :
    u.due (fun _ ↦ true) = ackByte c.held :: u.due (· != c.mailbox) := by
  simp only [due, Bool.and_true]
  refine acks_earliest (List.nodup_append.mp u.exclusive).2.1 hc rfl ho rfl fun d hd hok ↦ ?_
  exact h _ (List.mem_map.mpr ⟨d, List.mem_filter.mpr ⟨hd, hok⟩, rfl⟩)

/-- With the flags of a mailbox clear, what is due is due for the others. -/
theorem Transmitter.due_others {u : Transmitter} {m : Fin 3} (h : u.txok m = false) :
    u.due (· != m) = u.due fun _ ↦ true := by
  rw [txok, List.any_eq_false] at h
  rw [due, due, List.filter_congr fun c hc ↦ ?_]
  have hm := h c hc
  cases hok : c.ok <;> simp_all

/-! ### What is offered and due, in order -/

/-- What the order rests on: no flag is lost, and none is taken before an earlier one of
another type. -/
def TakenInOrder (t : Log) : Prop := FlagsHandled t ∧ EarliestTaken t

/-- Acknowledgements offered, an acknowledgement about to be offered, and those due for some
of the mailboxes are those of the frames transmitted, in order. -/
def Ordered (taken : List UInt8) (p : Fin 3 → Bool) (s : State) (t : Log) : Prop :=
  TakenInOrder t → acks t ++ (taken ++ s.can.tx.due p) = (transmitted t).map ackByte

theorem takenInOrder_concat {t : Log} {e : Op × State} (h : TakenInOrder (t ++ [e])) :
    TakenInOrder t ∧
      (∀ m, e.1 = .setTXRQ m ∨ e.1 = .read (.rqcp m) → e.2.can.tx.txok m = false) ∧
      ∀ m, e.1 = .read (.txok m) →
        ∀ a ∈ e.2.can.tx.earlier m, ∀ b ∈ e.2.can.tx.due (· == m), a = b := by
  unfold TakenInOrder FlagsHandled EarliestTaken at *
  simp only [List.forall_mem_append, List.forall_mem_singleton] at h
  exact ⟨⟨h.1.1, h.2.1⟩, h.1.2, h.2.2⟩

theorem Ordered.event {taken : List UInt8} {p : Fin 3 → Bool} {s : State} {t : Log}
    (h : Ordered taken p s t) (e : Event) (hp : ∀ m, s.can.tx.pending m = true → p m = true) :
    Ordered taken p (s.exec (.event e)) (t ++ [(.event e, s)]) := by
  intro ht
  have ha : ackedBy (.event e, s) = [] := rfl
  rw [s.due_event e p hp, acks_concat, transmitted_concat, ha, List.append_nil, List.map_append,
    ← h (takenInOrder_concat ht).1]
  simp only [List.append_assoc]

/-- Nothing is transmitted, and what is offered was about to be. -/
theorem Ordered.same {taken taken' : List UInt8} {p q : Fin 3 → Bool} {o : Op} {s s' : State}
    {t : Log} (h : Ordered taken q s t) (ht : transmittedBy (o, s) = [])
    (hd : TakenInOrder (t ++ [(o, s)]) →
      ackedBy (o, s) ++ (taken' ++ s'.can.tx.due p) = taken ++ s.can.tx.due q) :
    Ordered taken' p s' (t ++ [(o, s)]) := by
  intro hc
  rw [acks_concat, transmitted_concat, ht, List.append_nil, List.append_assoc, hd hc]
  exact h (takenInOrder_concat hc).1

theorem Ordered.quiet {taken : List UInt8} {p : Fin 3 → Bool} {o : Op} (ho : o.quiet = true) :
    OpKeeps device (Ordered taken p) o := by
  intro s t h
  obtain ⟨-, hc, ha, ht⟩ := Op.quiet_spec ho s
  refine h.same ht fun _ ↦ ?_
  rw [ha, List.nil_append, Transmitter.due, show (device.exec o s).can.tx.completed = _ from hc]
  rfl

/-- Between handlers all flags are due. -/
def OrderedLog (s : State) (t : Log) : Prop := Ordered [] (fun _ ↦ true) s t

private theorem ordered_stable : Stable device OrderedLog := fun e _ _ h ↦ h.event e fun _ _ ↦ rfl

-- The flag that is about to be acknowledged is taken in front of the others.
private def Taking (m : Fin 3) (s : State) (t : Log) : Prop :=
  ∃ c ∈ s.can.tx.completed, c.mailbox = m ∧ c.ok = true ∧
    Ordered [ackByte c.held] (· != m) s t

private theorem ordered_others {c : Completion} {s : State} {t : Log} {taken : List UInt8}
    (hc : c ∈ s.can.tx.completed) (h : Ordered taken (· != c.mailbox) s t) (e : Event) :
    Ordered taken (· != c.mailbox) (s.exec (.event e)) (t ++ [(.event e, s)]) := by
  refine h.event e fun m hp ↦ ?_
  rw [bne_iff_ne]
  rintro rfl
  exact Transmitter.not_completed hp c hc rfl

private theorem taking_stable (m : Fin 3) : Stable device (Taking m) := by
  rintro e s t ⟨c, hc, rfl, ho, h⟩
  exact ⟨c, State.completed_event e hc, rfl, ho, ordered_others hc h e⟩

private theorem taken_stable (m : Fin 3) :
    Stable device fun s t ↦ s.can.tx.rqcp m = true ∧ Ordered [] (· != m) s t := by
  rintro e s t ⟨hq, h⟩
  obtain ⟨c, hc, rfl⟩ := (s.can.tx.rqcp_iff m).mp hq
  exact ⟨(Transmitter.rqcp_iff _ _).mpr ⟨c, State.completed_event e hc, rfl⟩,
    ordered_others hc h e⟩

private theorem ordered_scanMailbox (m : Fin 3) :
    Keeps (fun s t ↦ LinkedLog s t ∧ OrderedLog s t) (scanMailbox m) := by
  apply scanMailbox_rule m ordered_stable (taking_stable m) (taken_stable m)
  · intro s t h hok
    obtain ⟨c, hc, rfl, ho⟩ := (s.can.tx.txok_iff m).mp hok
    refine ⟨c, hc, rfl, ho, Ordered.same h rfl fun ht ↦ ?_⟩
    have hearly := (takenInOrder_concat ht).2.2 _ rfl
    rw [Transmitter.due_one hc ho] at hearly
    exact (Transmitter.due_earliest hc ho fun a ha ↦
      hearly a ha _ (List.mem_singleton_self _)).symm
  · exact fun s t h _ ↦ Ordered.quiet rfl s t h
  · rintro s t ⟨c, hc, hm, ho, h⟩
    exact ⟨c, hc, hm, ho, Ordered.quiet rfl s t h⟩
  · rintro s t ⟨c', hc', rfl, ho', h⟩ c hc hm ho
    have hone := Transmitter.due_one hc ho
    rw [hm, Transmitter.due_one hc' ho'] at hone
    refine h.same rfl fun _ ↦ ?_
    rw [hone]
    rfl
  · intro s t h _
    refine Ordered.same h rfl fun ht ↦ ?_
    exact Transmitter.due_others ((takenInOrder_concat ht).2.1 m (.inr rfl))
  · exact fun s t h _ ↦ Ordered.same h rfl fun _ ↦ rfl
  · exact fun s t h ↦ h.same rfl fun _ ↦ Transmitter.due_clearRqcp _ m

private theorem ordered_postOne :
    Triple (fun s t ↦ OrderedLog s t ∧ s.canTxQ.empty = false) postOne fun _ ↦ OrderedLog := by
  refine keeps_postOne ordered_stable (Ordered.quiet rfl)
    (fun _ _ _ h _ ↦ Ordered.same h rfl fun _ ↦ rfl) fun m s t h ↦ Ordered.same h rfl fun ht ↦ ?_
  have hok := (takenInOrder_concat ht).2.1 m (.inl rfl)
  exact (Transmitter.due_request _ m).trans (Transmitter.due_others hok)

private theorem ordered_start {s : State} (h : s.can.tx.completed = []) : OrderedLog s [] := by
  intro _
  rw [Transmitter.due, h]
  rfl

theorem ordered_run (mailboxes : Fin 3 → TxMailBox) (txq : Nat → TxMailBox)
    (inb outb : Nat → UInt8) (steps : List Step) :
    OrderedLog (run (boot mailboxes txq inb outb) steps).state
      (run (boot mailboxes txq inb outb) steps).trace := by
  have h := quiet_run (linked_stable.and ordered_stable)
    (fun o ho s t h ↦ ⟨linked_quiet ho s t h.1, Ordered.quiet ho s t h.2⟩) ordered_scanMailbox
    ((keeps_canPostFrames linked_postOne).and (keeps_canPostFrames ordered_postOne))
    (fun s hs ↦ ⟨linked_start hs, ordered_start hs⟩) mailboxes txq inb outb steps
  exact h.2

/-- The acknowledgement of a frame carries its type code. -/
theorem TxMailBox.Holds.ackByte {mb : TxMailBox} {f : Frame} (h : mb.Holds f) :
    CanDybug.ackByte mb = canifAckFlag ||| f.type := by
  rw [CanDybug.ackByte, h.tir, ir_and_type, byteAt_word]

/-! ### Runs -/

/-- In every run in which the peripheral transmits in the order of requests, no flag is lost,
and no mailbox is handled before one of another type that completed earlier: what is offered
and what is due are the acknowledgements of the frames transmitted, in the order of
transmission; frames are transmitted in the order in which they were posted; and after
`CanIf_Open` that is the order in which the host requested them. -/
theorem acks_inOrder (mailboxes : Fin 3 → TxMailBox) (txq : Nat → TxMailBox)
    (inb outb : Nat → UInt8) (steps : List Step) (c : Config)
    (hc : c = run (boot mailboxes txq inb outb) steps) (fifo : InRequestOrder c.trace)
    (taken : TakenInOrder c.trace) :
    acks c.trace ++ c.state.due = (transmitted c.trace).map ackByte ∧
      (transmitted c.trace).Sublist (posted c.trace) ∧
      ∀ before init script session, steps = before ++ [⟨.canIfOpen true init, script⟩] ++ session →
        (∀ a ∈ session, a.action.inSession = true) →
        List.SublistForall₂ (fun mb f ↦ ackByte mb = canifAckFlag ||| f.type) (posted c.trace)
          (requested c.trace) := by
  subst hc
  refine ⟨ordered_run mailboxes txq inb outb steps taken,
    transmitted_sublist_posted mailboxes txq inb outb steps fifo, ?_⟩
  rintro before init script session rfl hs
  have h := posted_requested mailboxes txq inb outb before init script hs rfl
  obtain ⟨fs, hf, hsub⟩ := List.sublistForall₂_iff.mp h
  exact List.sublistForall₂_iff.mpr ⟨fs, hf.imp fun _ _ hm ↦ hm.ackByte, hsub⟩

/-- Four frames, the first of another type than the rest: after its acknowledgement the last
is posted to mailbox 0, and all three complete before the handler runs. -/
def rotated : List Step :=
  [⟨.canIfOpen true true, []⟩,
    ⟨.epOutComplete [5, 0, 1, 2, 7, 4, 2, 0, 1, 4, 2, 0, 2, 4, 2, 0, 3], []⟩,
    ⟨.event (.txOk 0), []⟩, ⟨.frameSent, []⟩,
    ⟨.event (.txOk 1), []⟩, ⟨.event (.txOk 2), []⟩, ⟨.event (.txOk 0), []⟩, ⟨.frameSent, []⟩]

/-- Mailbox 0 is handled first, but its frame is of the type of those that were earlier. -/
theorem acks_inOrder_rotated :
    ∃ c : Config, c = run (boot (fun _ ↦ ⟨0, 0, 0, 0⟩) (fun _ ↦ ⟨0, 0, 0, 0⟩) (fun _ ↦ 0) fun _ ↦ 0)
      rotated ∧ acks c.trace ++ c.state.due = (transmitted c.trace).map ackByte ∧
      (transmitted c.trace).Sublist (posted c.trace) ∧
      ∀ before init script session,
        rotated = before ++ [⟨.canIfOpen true init, script⟩] ++ session →
        (∀ a ∈ session, a.action.inSession = true) →
        List.SublistForall₂ (fun mb f ↦ ackByte mb = canifAckFlag ||| f.type) (posted c.trace)
          (requested c.trace) :=
  ⟨_, rfl, acks_inOrder (fun _ ↦ ⟨0, 0, 0, 0⟩) (fun _ ↦ ⟨0, 0, 0, 0⟩) (fun _ ↦ 0) (fun _ ↦ 0)
    rotated _ rfl (by decide +kernel) ⟨by decide +kernel, by decide +kernel⟩⟩

/-- Four frames of four types, the last posted to mailbox 0 when the first is acknowledged. -/
def mixed : List Step :=
  [⟨.canIfOpen true true, []⟩,
    ⟨.epOutComplete [5, 0, 1, 2, 7, 4, 2, 0, 3, 7, 4, 0, 0, 1, 2, 9, 6, 6, 0, 0, 0, 4], []⟩,
    ⟨.event (.txOk 0), []⟩, ⟨.frameSent, []⟩,
    ⟨.event (.txOk 1), []⟩, ⟨.event (.txOk 2), []⟩, ⟨.event (.txOk 0), []⟩, ⟨.frameSent, []⟩]

/-- The last frame is acknowledged before the second and the third, although frames are
transmitted in the order of their requests and no flag is overwritten. -/
theorem acks_mixed :
    ¬ ∀ mailboxes txq inb outb steps c, c = run (boot mailboxes txq inb outb) steps →
      InRequestOrder c.trace →
      (∀ e ∈ c.trace, ∀ m, e.1 = .setTXRQ m → e.2.can.tx.txok m = false) →
      acks c.trace <+: (transmitted c.trace).map ackByte := by
  intro h
  have hn := h (fun _ ↦ ⟨0, 0, 0, 0⟩) (fun _ ↦ ⟨0, 0, 0, 0⟩) (fun _ ↦ 0) (fun _ ↦ 0) mixed _ rfl
  revert hn
  decide +kernel

end CanDybug
