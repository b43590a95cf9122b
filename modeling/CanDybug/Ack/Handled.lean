import CanDybug.Ack.Flags
import Mathlib.Data.List.Perm.Subperm

/-!
# What one call of `Can_FrameSent` acknowledges

The handler looks at one mailbox after the other, and mailboxes complete meanwhile, but no
request is made before it has looked at all of them. So every `TXOK` that is flagged when it
starts is acknowledged, and what is flagged when it returns was transmitted while it ran.
-/

namespace CanDybug

open Base

/-- The acknowledgements due for completions, oldest first. -/
def dueFor (cs : List Completion) : List UInt8 := (cs.filter (·.ok)).map fun c ↦ ackByte c.held

theorem State.due_eq (s : State) : s.due = dueFor s.can.tx.completed := by
  simp [State.due, Transmitter.due, dueFor]

theorem dueFor_append (cs cs' : List Completion) :
    dueFor (cs ++ cs') = dueFor cs ++ dueFor cs' := by
  simp [dueFor]

theorem dueFor_sublist {cs cs' : List Completion} (h : cs.Sublist cs') :
    (dueFor cs).Sublist (dueFor cs') := (h.filter _).map _

section Scan

variable {first : List Completion} {acked : List UInt8} {before : List TxMailBox}

/-- Of the completions found at the start those of the mailboxes still to be looked at are there,
and what else is due was transmitted since. -/
def Later (first : List Completion) (before : List TxMailBox) (ms : List (Fin 3)) (s : State)
    (t : Log) : Prop :=
  ∃ new sent, s.can.tx.completed = first.filter (ms.contains ·.mailbox) ++ new ∧
    transmitted t = before ++ sent ∧ (dueFor new).Sublist (sent.map ackByte)

/-- The others have been acknowledged. -/
def Handled (first : List Completion) (acked : List UInt8) (ms : List (Fin 3)) (t : Log) : Prop :=
  ∃ new, acks t = acked ++ new ∧ (dueFor (first.filter (!ms.contains ·.mailbox))).Subperm new

theorem later_nil (s : State) (t : Log) : Later first before [] s t ↔
    ∃ sent, transmitted t = before ++ sent ∧
      (dueFor s.can.tx.completed).Sublist (sent.map ackByte) := by
  simp [Later]

theorem handled_nil (t : Log) : Handled first acked [] t ↔
    ∃ new, acks t = acked ++ new ∧ (dueFor first).Subperm new := by
  simp [Handled]

theorem Later.event {ms : List (Fin 3)} {s : State} {t : Log} (h : Later first before ms s t)
    (e : Event) : Later first before ms (s.exec (.event e)) (t ++ [(.event e, s)]) := by
  obtain ⟨new, sent, hc, ht, hs⟩ := h
  have he := s.txEvent e
  have hadd {m : Fin 3} (hm : s.can.tx.pending m = true) (ok : Bool) :
      (s.can.tx.complete m ok).completed =
        first.filter (ms.contains ·.mailbox) ++ (new ++ [⟨m, ok, s.can.tx.mailboxes m⟩]) := by
    rw [Transmitter.complete, dif_pos hm, ← List.append_assoc, ← hc]
  rw [Later, transmitted_concat, ht]
  generalize (s.exec (.event e)).can.tx = u at he ⊢
  cases he with
  | idle _ n h =>
    rw [transmittedBy_idle h, List.append_nil]
    exact ⟨new, sent, hc, rfl, hs⟩
  | sent m h =>
    refine ⟨_, sent ++ [s.can.tx.mailboxes m], hadd h true, ?_, ?_⟩
    · simp [transmittedBy, h]
    · rw [dueFor_append, List.map_append]
      exact hs.append (List.Sublist.refl _)
  | aborted r hr =>
    refine ⟨_, sent, hadd ((s.can.tx.pending_iff _).mpr ⟨r, hr, rfl⟩) false, ?_, ?_⟩
    · exact List.append_nil _
    · rw [dueFor_append]
      exact (List.append_nil (dueFor new)).symm ▸ hs

/-- Nothing is transmitted and no completion changes. -/
theorem Later.same {ms : List (Fin 3)} {o : Op} {s s' : State} {t : Log}
    (h : Later first before ms s t) (hc : s'.can.tx.completed = s.can.tx.completed)
    (ht : transmittedBy (o, s) = []) : Later first before ms s' (t ++ [(o, s)]) := by
  rwa [Later, hc, transmitted_concat, ht, List.append_nil]

theorem Handled.same {ms : List (Fin 3)} {o : Op} {s : State} {t : Log}
    (h : Handled first acked ms t) (ha : ackedBy (o, s) = []) :
    Handled first acked ms (t ++ [(o, s)]) := by
  rwa [Handled, acks_concat, ha, List.append_nil]

/-- What was due for a mailbox at the start still is. -/
theorem Later.due {ms : List (Fin 3)} {s : State} {t : Log} {m : Fin 3} (hm : m ∈ ms)
    (h : Later first before ms s t) :
    (dueFor (first.filter (·.mailbox == m))).Sublist (s.can.tx.due (· == m)) := by
  obtain ⟨new, -, hc, -, -⟩ := h
  have hthere : (first.filter (ms.contains ·.mailbox)).filter (·.mailbox == m) =
      first.filter (·.mailbox == m) := by
    rw [List.filter_filter]
    exact List.filter_congr fun c _ ↦ by by_cases hcm : c.mailbox = m <;> simp [hcm, hm]
  have hsub : (first.filter (·.mailbox == m)).Sublist
      (s.can.tx.completed.filter (·.mailbox == m)) := by
    rw [hc, List.filter_append, hthere]
    exact List.sublist_append_left _ _
  have hdue : s.can.tx.due (· == m) = dueFor (s.can.tx.completed.filter (·.mailbox == m)) := by
    rw [dueFor, Transmitter.due, List.filter_filter]
  exact hdue ▸ dueFor_sublist hsub

/-- The completions of one mailbox more. -/
theorem dueFor_split (first : List Completion) {ms : List (Fin 3)} {m : Fin 3} (hm : m ∉ ms) :
    (dueFor (first.filter (!(m :: ms).contains ·.mailbox)) ++
      dueFor (first.filter (·.mailbox == m))).Perm
        (dueFor (first.filter (!ms.contains ·.mailbox))) := by
  rw [← dueFor_append]
  apply List.Perm.map
  apply List.Perm.filter
  have h := List.filter_append_perm (fun c : Completion ↦ c.mailbox == m)
    (first.filter (!ms.contains ·.mailbox))
  rw [List.filter_filter, List.filter_filter] at h
  refine (List.perm_append_comm.trans (List.Perm.of_eq ?_)).trans h
  congr 1
  · exact List.filter_congr fun c _ ↦ by by_cases hcm : c.mailbox = m <;> simp [hcm, hm]
  · exact List.filter_congr fun c _ ↦ by by_cases hcm : c.mailbox = m <;> simp [hcm]

/-- A mailbox has been looked at that was not due at the start. -/
theorem Handled.skip {ms : List (Fin 3)} {m : Fin 3} (hm : m ∉ ms) {t : Log}
    (h : Handled first acked (m :: ms) t) (hd : dueFor (first.filter (·.mailbox == m)) = []) :
    Handled first acked ms t := by
  obtain ⟨new, ha, hs⟩ := h
  have hp := dueFor_split first hm
  rw [hd, List.append_nil] at hp
  exact ⟨new, ha, hp.symm.subperm.trans hs⟩

/-- Its acknowledgement is offered. -/
theorem Handled.offer {ms : List (Fin 3)} {m : Fin 3} (hm : m ∉ ms) {s : State} {t : Log}
    {b : UInt8} (h : Handled first acked (m :: ms) t)
    (hd : (dueFor (first.filter (·.mailbox == m))).Sublist [b]) :
    Handled first acked ms (t ++ [(.addMessage [b], s)]) := by
  obtain ⟨new, ha, hs⟩ := h
  refine ⟨new ++ [b], ?_, ?_⟩
  · rw [acks_concat, ha, List.append_assoc]
    rfl
  · exact (dueFor_split first hm).symm.subperm.trans (hs.append hd.subperm)

/-- `RQCP` of a mailbox is cleared. -/
theorem Later.clear {ms : List (Fin 3)} {m : Fin 3} (hm : m ∉ ms) {s : State} {t : Log}
    (h : Later first before (m :: ms) s t) :
    Later first before ms (s.exec (.clearRQCP m)) (t ++ [(.clearRQCP m, s)]) := by
  obtain ⟨new, sent, hc, ht, hs⟩ := h
  refine ⟨new.filter (·.mailbox != m), sent, ?_, ?_, ?_⟩
  · change s.can.tx.completed.filter (·.mailbox != m) = _
    rw [hc, List.filter_append, List.filter_filter]
    congr 1
    exact List.filter_congr fun c _ ↦ by by_cases hcm : c.mailbox = m <;> simp [hcm, hm]
  · rw [transmitted_concat, ht]
    exact List.append_nil _
  · exact (dueFor_sublist List.filter_sublist).trans hs

/-- A mailbox has no completion at all. -/
theorem Later.skip {ms : List (Fin 3)} {m : Fin 3} {s : State} {t : Log}
    (h : Later first before (m :: ms) s t) (hq : s.can.tx.rqcp m = false) :
    Later first before ms s t := by
  obtain ⟨new, sent, hc, ht, hs⟩ := h
  refine ⟨new, sent, ?_, ht, hs⟩
  rw [hc]
  congr 1
  refine List.filter_congr fun c hcf ↦ ?_
  by_cases hcm : c.mailbox = m
  · have hin : c ∈ s.can.tx.completed :=
      hc ▸ List.mem_append_left _ (List.mem_filter.mpr ⟨hcf, by simp [hcm]⟩)
    rw [(s.can.tx.rqcp_iff m).mpr ⟨c, hin, hcm⟩] at hq
    contradiction
  · simp [hcm]

/-- The handler has still to look at some mailboxes. -/
def Scanning (first : List Completion) (acked : List UInt8) (before : List TxMailBox)
    (ms : List (Fin 3)) (s : State) (t : Log) : Prop :=
  Later first before ms s t ∧ Handled first acked ms t

theorem scanning_stable (ms : List (Fin 3)) : Stable device (Scanning first acked before ms) :=
  fun e _ _ h ↦ ⟨h.1.event e, h.2.same rfl⟩

theorem scanning_quiet {ms : List (Fin 3)} {o : Op} (ho : o.quiet = true) :
    OpKeeps device (Scanning first acked before ms) o := by
  intro s t h
  obtain ⟨-, hc, ha, ht⟩ := Op.quiet_spec ho s
  exact ⟨h.1.same hc ht, h.2.same ha⟩

/-- One round. -/
theorem scanning_scanMailbox {m : Fin 3} {ms : List (Fin 3)} (hm : m ∉ ms) :
    Triple (fun s t ↦ LinkedLog s t ∧ Scanning first acked before (m :: ms) s t) (scanMailbox m)
      fun _ s t ↦ LinkedLog s t ∧ Scanning first acked before ms s t := by
  have stable : Stable device (Scanning first acked before (m :: ms)) := scanning_stable (m :: ms)
  apply scanMailbox_passes (B := fun s t ↦ Later first before (m :: ms) s t ∧
    Handled first acked ms t) (N := fun s t ↦ Scanning first acked before (m :: ms) s t ∧
      dueFor (first.filter (·.mailbox == m)) = []) m stable
  · exact fun e s t h ↦ ⟨stable e s t h.1, h.2⟩
  · exact stable
  · rintro e s t ⟨hq, hl, hh⟩
    obtain ⟨c, hc, hcm⟩ := (s.can.tx.rqcp_iff m).mp hq
    exact ⟨(Transmitter.rqcp_iff _ m).mpr ⟨c, State.completed_event e hc, hcm⟩, hl.event e,
      hh.same rfl⟩
  · exact fun s t h _ ↦ scanning_quiet (o := .read (.txok m)) rfl s t h
  · intro s t h hok
    refine ⟨scanning_quiet (o := .read (.txok m)) rfl s t h, ?_⟩
    have hd := h.1.due List.mem_cons_self
    rw [(Transmitter.due_eq_nil _ m).mpr hok] at hd
    exact List.sublist_nil.mp hd
  · exact fun s t h ↦ scanning_quiet rfl s t h
  · rintro s t h c hc rfl hok
    have hd := h.1.due List.mem_cons_self
    rw [Transmitter.due_one hc hok] at hd
    exact ⟨h.1.same rfl rfl, h.2.offer hm hd⟩
  · exact fun s t h _ ↦ ⟨h.1.1.same rfl rfl, (h.1.2.skip hm h.2).same rfl⟩
  · exact fun s t h hq ↦ ⟨(h.1.1.skip hq).same rfl rfl, (h.1.2.skip hm h.2).same rfl⟩
  · exact fun s t h ↦ ⟨h.1.clear hm, h.2.same rfl⟩

/-- All rounds. -/
theorem scanning_scanMailboxes {ms : List (Fin 3)} (hms : ms.Nodup) (ok : Bool) :
    Triple (fun s t ↦ LinkedLog s t ∧ Scanning first acked before ms s t) (scanMailboxes ms ok)
      fun _ s t ↦ LinkedLog s t ∧ Scanning first acked before [] s t := by
  induction ms generalizing ok with
  | nil => exact keeps_pure ok
  | cons m ms ih =>
    obtain ⟨hm, hms⟩ := List.nodup_cons.mp hms
    exact Triple.bind (scanning_scanMailbox hm) fun sent ↦ ih hms _

/-- The rest of the handler makes requests, which clear flags. -/
theorem scanning_canFrameSent :
    Triple (fun s t ↦ LinkedLog s t ∧ Scanning first acked before (List.finRange 3) s t)
      canFrameSent fun _ ↦ Scanning first acked before [] := by
  have stable : Stable device (Scanning first acked before []) := scanning_stable []
  have request (m : Fin 3) : OpKeeps device (Scanning first acked before []) (.setTXRQ m) := by
    rintro s t ⟨hl, hh⟩
    obtain ⟨sent, ht, hs⟩ := (later_nil s t).mp hl
    have hsub : (s.can.tx.request m).completed.Sublist s.can.tx.completed := by
      unfold Transmitter.request
      split
      · exact List.Sublist.refl _
      · exact List.filter_sublist
    refine ⟨(later_nil _ _).mpr ⟨sent, ?_, (dueFor_sublist hsub).trans hs⟩, hh.same rfl⟩
    rw [transmitted_concat, ht]
    exact List.append_nil _
  have post : Keeps (Scanning first acked before []) canPostFrames :=
    keeps_canPostFrames (keeps_postOne stable (scanning_quiet rfl)
      (fun m s t h _ ↦ ⟨h.1.same rfl rfl, h.2.same rfl⟩) request)
  have receive : Keeps (Scanning first acked before []) canIfReceiveOutData :=
    keeps_canIfReceiveOutData stable (scanning_quiet rfl) fun _ ↦ scanning_quiet rfl
  refine Triple.bind (scanning_scanMailboxes (List.nodup_finRange 3) false) fun ok ↦ ?_
  exact (keeps_ite (keeps_bind post fun _ ↦ receive) (keeps_pure ())).pre fun _ _ h ↦ h.2

end Scan

/-- In every run completed mailboxes hold what they have transmitted. -/
theorem linked_run (mailboxes : Fin 3 → TxMailBox) (txq : Nat → TxMailBox)
    (inb outb : Nat → UInt8) (steps : List Step) :
    LinkedLog (run (boot mailboxes txq inb outb) steps).state
      (run (boot mailboxes txq inb outb) steps).trace :=
  quiet_run linked_stable (fun _ ho ↦ linked_quiet ho)
    (keeps_scanMailbox linked_stable (fun _ _ _ _ h ↦ h) (fun _ _ _ h ↦ h)
      fun m _ _ h ↦ linked_clearRqcp h m)
    (keeps_canPostFrames linked_postOne) (fun _ hs ↦ linked_start hs) mailboxes txq inb outb steps

/-- One call, whatever happens while it runs. -/
theorem frameSent_handles {c : Config} (h : LinkedLog c.state c.trace)
    (script : List (List Event)) :
    ∃ new sent,
      acks (run c [⟨.frameSent, script⟩]).trace = acks c.trace ++ new ∧
      transmitted (run c [⟨.frameSent, script⟩]).trace = transmitted c.trace ++ sent ∧
      c.state.due.Subperm new ∧
      (run c [⟨.frameSent, script⟩]).state.due.Sublist (sent.map ackByte) := by
  have hall : c.state.can.tx.completed.filter ((List.finRange 3).contains ·.mailbox) =
      c.state.can.tx.completed :=
    List.filter_eq_self.mpr fun x _ ↦ by simp
  have hnone : c.state.can.tx.completed.filter (!(List.finRange 3).contains ·.mailbox) = [] :=
    List.filter_eq_nil_iff.mpr fun x _ ↦ by simp
  have hstart : Scanning c.state.can.tx.completed (acks c.trace) (transmitted c.trace)
      (List.finRange 3) c.state c.trace := by
    refine ⟨⟨[], [], ?_, (List.append_nil _).symm, List.Sublist.refl _⟩, [],
      (List.append_nil _).symm, ?_⟩
    · rw [hall, List.append_nil]
    · rw [hnone]
      exact List.Subperm.refl _
  obtain ⟨hl, hh⟩ := scanning_canFrameSent { c with script } ⟨h, hstart⟩
  obtain ⟨sent, ht, hs⟩ := (later_nil _ _).mp hl
  obtain ⟨new, ha, hd⟩ := (handled_nil _).mp hh
  refine ⟨new, sent, ha, ht, ?_, ?_⟩
  · rwa [State.due_eq]
  · rwa [State.due_eq]

/-- `Can_FrameSent`, after any run and whatever happens while it runs: it acknowledges each frame
whose `TXOK` was flagged when it started, and what is flagged when it returns are frames that
were transmitted meanwhile. -/
theorem canFrameSent_handles (mailboxes : Fin 3 → TxMailBox) (txq : Nat → TxMailBox)
    (inb outb : Nat → UInt8) (steps : List Step) (script : List (List Event)) :
    ∃ new sent,
      acks (run (boot mailboxes txq inb outb) (steps ++ [⟨.frameSent, script⟩])).trace =
        acks (run (boot mailboxes txq inb outb) steps).trace ++ new ∧
      transmitted (run (boot mailboxes txq inb outb) (steps ++ [⟨.frameSent, script⟩])).trace =
        transmitted (run (boot mailboxes txq inb outb) steps).trace ++ sent ∧
      (run (boot mailboxes txq inb outb) steps).state.due.Subperm new ∧
      (run (boot mailboxes txq inb outb) (steps ++ [⟨.frameSent, script⟩])).state.due.Sublist
        (sent.map ackByte) := by
  rw [run_append]
  exact frameSent_handles (linked_run mailboxes txq inb outb steps) script

end CanDybug
