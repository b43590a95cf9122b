import CanDybug.Device.Log
import Mathlib.Data.List.Perm.Basic

/-!
# Acknowledgements and completion flags

What the trace tells of frames transmitted and acknowledged, the acknowledgements for which
`TXOK` is still flagged, and the rule for the loop body of `Can_FrameSent`. It reads the type
of a frame from the mailbox, which holds it until `Can_PostFrames` refills the mailbox.
-/

namespace CanDybug

open Base

/-- The acknowledgement of the frame in a mailbox, `can_if.c:401–402`. -/
def ackByte (mb : TxMailBox) : UInt8 := canifAckFlag ||| byteAt (mb.TIR &&& canIdtypeExtRtr) 0

/-- The acknowledgement an operation offers: of all messages only these have one byte. -/
def ackedBy (e : Op × State) : List UInt8 :=
  match e.1 with
  | .addMessage [b] => [b]
  | _ => []

/-- The acknowledgements offered to `CanIf_AddMessage`. -/
def acks (t : Log) : List UInt8 := t.flatMap ackedBy

@[simp] theorem acks_concat (t : Log) (e : Op × State) : acks (t ++ [e]) = acks t ++ ackedBy e := by
  simp [acks]

/-- The frame whose transmission an operation completes. -/
def transmittedBy (e : Op × State) : List TxMailBox :=
  match e.1 with
  | .event (.txOk m) => if e.2.can.tx.pending m then [e.2.can.tx.mailboxes m] else []
  | _ => []

/-- The frames reported as transmitted. -/
def transmitted (t : Log) : List TxMailBox := t.flatMap transmittedBy

@[simp] theorem transmitted_concat (t : Log) (e : Op × State) :
    transmitted (t ++ [e]) = transmitted t ++ transmittedBy e := by
  simp [transmitted]

theorem transmittedBy_idle {e : Event} {s : State}
    (h : ∀ m, e = .txOk m → s.can.tx.pending m = false) : transmittedBy (.event e, s) = [] := by
  cases e with
  | txOk m => simp [transmittedBy, h m rfl]
  | _ => rfl

/-- The acknowledgements due for the `TXOK` flags of some of the mailboxes, oldest first. -/
def Transmitter.due (u : Transmitter) (p : Fin 3 → Bool) : List UInt8 :=
  (u.completed.filter fun c ↦ c.ok && p c.mailbox).map fun c ↦ ackByte c.held

/-- The acknowledgements due for all `TXOK` flags. -/
def State.due (s : State) : List UInt8 := s.can.tx.due fun _ ↦ true

/-- Operations that change neither mailboxes nor their completions, and neither acknowledge
nor transmit, nor decide that a flag is cleared. -/
def Op.quiet : Op → Bool
  | event _ | read (.rqcp _) | addMessage [_] | postFrame _ | setTXRQ _ | clearRQCP _
  | resetCan => false
  | _ => true

theorem Op.quiet_spec {o : Op} (h : o.quiet = true) (s : State) :
    (s.exec o).can.tx.mailboxes = s.can.tx.mailboxes ∧
      (s.exec o).can.tx.completed = s.can.tx.completed ∧
      ackedBy (o, s) = [] ∧ transmittedBy (o, s) = [] := by
  cases o with
  | deliver bytes =>
    simp only [State.exec]
    split <;> exact ⟨rfl, rfl, rfl, rfl⟩
  | addMessage msg =>
    refine ⟨rfl, rfl, ?_, rfl⟩
    unfold ackedBy
    split
    · next he =>
      cases he
      contradiction
    · rfl
  | event | postFrame | setTXRQ | clearRQCP | resetCan => contradiction
  | _ => exact ⟨rfl, rfl, rfl, rfl⟩

private theorem Op.quiet_addMessage {msg : List UInt8} (h : msg.length ≠ 1) :
    (Op.addMessage msg).quiet = true := by
  match msg, h with
  | [], _ => rfl
  | _ :: _ :: _, _ => rfl

/-! ### What operations do to the flags -/

theorem Transmitter.due_complete {u : Transmitter} {m : Fin 3} (h : u.pending m = true)
    (ok : Bool) (p : Fin 3 → Bool) :
    (u.complete m ok).due p = u.due p ++ if ok && p m then [ackByte (u.mailboxes m)] else [] := by
  simp only [due, complete, dif_pos h, List.filter_append, List.map_append]
  cases hb : ok && p m <;> simp [hb]

/-- An event adds the acknowledgement of what it transmits. -/
theorem State.due_event (s : State) (e : Event) (p : Fin 3 → Bool)
    (hp : ∀ m, s.can.tx.pending m = true → p m = true) :
    (s.exec (.event e)).can.tx.due p =
      s.can.tx.due p ++ (transmittedBy (.event e, s)).map ackByte := by
  have he := s.txEvent e
  generalize (s.exec (.event e)).can.tx = u at he ⊢
  cases he with
  | idle _ n h =>
    rw [transmittedBy_idle h]
    exact (List.append_nil _).symm
  | sent m h =>
    rw [Transmitter.due_complete h]
    simp [transmittedBy, h, hp m h]
  | aborted r hr =>
    rw [Transmitter.due_complete ((s.can.tx.pending_iff _).mpr ⟨r, hr, rfl⟩)]
    rfl

theorem Transmitter.due_clearRqcp (u : Transmitter) (m : Fin 3) :
    (u.clearRqcp m).due (fun _ ↦ true) = u.due (· != m) := by
  simp only [due, clearRqcp, List.filter_filter, Bool.and_true]

theorem Transmitter.due_request (u : Transmitter) (m : Fin 3) :
    (u.request m).due (fun _ ↦ true) = u.due (· != m) := by
  unfold request
  split
  · next h =>
    have hne : ∀ c ∈ u.completed, (c.ok && true) = (c.ok && c.mailbox != m) := fun c hc ↦ by
      rw [bne_iff_ne.mpr (not_completed h c hc)]
    rw [due, due, List.filter_congr hne]
  · simp only [due, List.filter_filter, Bool.and_true]

/-- Nothing is due for a mailbox exactly if its `TXOK` is clear. -/
theorem Transmitter.due_eq_nil (u : Transmitter) (m : Fin 3) :
    u.due (· == m) = [] ↔ u.txok m = false := by
  rw [due, List.map_eq_nil_iff, List.filter_eq_nil_iff, txok, List.any_eq_false]
  simp only [Bool.and_comm]

/-- Where `RQCP` is clear `TXOK` is. -/
theorem Transmitter.txok_of_rqcp {u : Transmitter} {m : Fin 3} (h : u.rqcp m = false) :
    u.txok m = false := by
  rw [rqcp, List.any_eq_false] at h
  rw [txok, List.any_eq_false]
  intro c hc hm
  exact h c hc (Bool.and_eq_true_iff.mp hm).1

/-- The flags of a mailbox and those of the others are all flags. -/
theorem Transmitter.due_split (u : Transmitter) (m : Fin 3) :
    (u.due (· == m) ++ u.due (· != m)).Perm (u.due fun _ ↦ true) := by
  have h := List.filter_append_perm (fun c : Completion ↦ c.mailbox == m)
    (u.completed.filter (·.ok))
  simpa [due, List.filter_filter, Bool.and_comm, bne] using h.map fun c ↦ ackByte c.held

/-- A mailbox has one completion. -/
theorem Transmitter.due_one {u : Transmitter} {c : Completion} (h : c ∈ u.completed)
    (ho : c.ok = true) : u.due (· == c.mailbox) = [ackByte c.held] := by
  have hn := (List.nodup_append.mp u.exclusive).2.1
  have hf : (u.completed.filter fun c' ↦ c'.ok && c'.mailbox == c.mailbox) = [c] := by
    refine List.perm_singleton.mp ((List.perm_ext_iff_of_nodup ?_ (List.nodup_singleton c)).mpr ?_)
    · exact (List.Nodup.of_map _ hn).filter _
    · intro c'
      rw [List.mem_filter, List.mem_singleton]
      constructor
      · rintro ⟨hc', hm⟩
        exact List.inj_on_of_nodup_map hn hc' h (by simpa using (Bool.and_eq_true_iff.mp hm).2)
      · rintro rfl
        exact ⟨h, by simp [ho]⟩
  rw [due, hf]
  rfl

/-! ### Completed mailboxes hold what they have transmitted -/

/-- Completed mailboxes hold what they held when they completed. -/
def Transmitter.Linked (u : Transmitter) (p : Fin 3 → Bool) : Prop :=
  ∀ c ∈ u.completed, p c.mailbox = true → u.mailboxes c.mailbox = c.held

theorem linked_event {s : State} {p : Fin 3 → Bool} (h : s.can.tx.Linked p) (e : Event) :
    (s.exec (.event e)).can.tx.Linked p := by
  have hc (m : Fin 3) (ok : Bool) : (s.can.tx.complete m ok).Linked p := by
    unfold Transmitter.complete
    split
    · intro c hm hp
      rcases List.mem_append.mp hm with hm | hm
      · exact h c hm hp
      · rw [List.mem_singleton.mp hm]
    · exact h
  have he := s.txEvent e
  generalize (s.exec (.event e)).can.tx = u at he ⊢
  cases he with
  | idle => exact h
  | sent m => exact hc m true
  | aborted r => exact hc r.mailbox false

/-- Between handlers all completed mailboxes are linked. -/
def LinkedLog (s : State) (_ : Log) : Prop := s.can.tx.Linked fun _ ↦ true

theorem linked_stable : Stable device LinkedLog := fun e _ _ h ↦ linked_event h e

theorem linked_quiet {o : Op} (ho : o.quiet = true) : OpKeeps device LinkedLog o := by
  intro s t h
  obtain ⟨hm, hc, -, -⟩ := Op.quiet_spec ho s
  change ∀ c ∈ (s.exec o).can.tx.completed, _ → (s.exec o).can.tx.mailboxes c.mailbox = c.held
  rw [hm, hc]
  exact h

theorem linked_start {s : State} (h : s.can.tx.completed = []) : LinkedLog s [] := by
  intro c hc
  rw [h] at hc
  contradiction

theorem linked_clearRqcp {s : State} {t t' : Log} (h : LinkedLog s t) (m : Fin 3) :
    LinkedLog (s.exec (.clearRQCP m)) t' :=
  fun c hc _ ↦ h c (List.mem_of_mem_filter hc) rfl

theorem linked_request {u : Transmitter} {m : Fin 3} (hp : u.pending m = false)
    (h : u.Linked (· != m)) : (u.request m).Linked fun _ ↦ true := by
  rw [Transmitter.request, dif_neg (by simp [hp])]
  intro c hc _
  obtain ⟨hc, hm⟩ := List.mem_filter.mp hc
  exact h c hc hm

/-- While a mailbox is refilled it does not hold what it has transmitted. -/
theorem linked_postOne :
    Triple (fun s t ↦ LinkedLog s t ∧ s.canTxQ.empty = false) postOne fun _ ↦ LinkedLog := by
  refine postOne_rule linked_stable (W := fun m s _ ↦ s.can.tx.pending m = false ∧
    s.can.tx.Linked (· != m)) ?_ (fun _ _ h ↦ h) ?_ ?_
  · exact fun m e s t h ↦ ⟨State.pending_event e h.1, linked_event h.2 e⟩
  · refine fun m s t h _ hp ↦ ⟨hp, fun c hc hm ↦ ?_⟩
    exact (Function.update_of_ne (by simpa using hm) _ _).trans (h c hc rfl)
  · exact fun m s t h ↦ linked_request h.1 h.2

/-! ### The loop body of `Can_FrameSent` -/

/-- Rule for the loop body. `T` holds from `TXOK` read as set until its acknowledgement is
offered, `N` from `TXOK` read as clear, `B` from the acknowledgement, or from `RQCP` read as set,
until `RQCP` is cleared. -/
theorem scanMailbox_passes {I N T B J : Assertion State Op} (m : Fin 3) (hs : Stable device I)
    (hn : Stable device N) (ht : Stable device T)
    (hb : Stable device fun s t ↦ s.can.tx.rqcp m = true ∧ B s t)
    (hit : ∀ s t, I s t → s.can.tx.txok m = true → T s (t ++ [(.read (.txok m), s)]))
    (miss : ∀ s t, I s t → s.can.tx.txok m = false → N s (t ++ [(.read (.txok m), s)]))
    (tir : OpKeeps device T (.read (.tir m)))
    (ack : ∀ s t, T s t → ∀ c ∈ s.can.tx.completed, c.mailbox = m → c.ok = true →
      B (s.exec (.addMessage [ackByte c.held])) (t ++ [(.addMessage [ackByte c.held], s)]))
    (rqcp : ∀ s t, N s t → s.can.tx.rqcp m = true → B s (t ++ [(.read (.rqcp m), s)]))
    (idle : ∀ s t, N s t → s.can.tx.rqcp m = false → J s (t ++ [(.read (.rqcp m), s)]))
    (clear : ∀ s t, B s t → J (s.exec (.clearRQCP m)) (t ++ [(.clearRQCP m, s)])) :
    Triple (fun s t ↦ LinkedLog s t ∧ I s t) (scanMailbox m)
      fun _ s t ↦ LinkedLog s t ∧ J s t := by
  have done (sent : Bool) : Triple (fun s t ↦ LinkedLog s t ∧ s.can.tx.rqcp m = true ∧ B s t)
      (do write (.clearRQCP m); return sent) fun _ s t ↦ LinkedLog s t ∧ J s t :=
    Triple.bind (R := fun _ s t ↦ LinkedLog s t ∧ J s t)
      (Triple.access _ (linked_stable.and hb) fun s t h ↦
        ⟨linked_clearRqcp h.1 m, clear s t h.2.2⟩) fun _ ↦ keeps_pure sent
  have stays {p : Completion → Prop} {P : Assertion State Op} (hP : Stable device P) :
      Stable device fun s t ↦ (LinkedLog s t ∧ P s t) ∧ ∃ c ∈ s.can.tx.completed, p c :=
    fun e s t h ↦ ⟨linked_stable.and hP e s t h.1, h.2.imp fun _ hc ↦
      ⟨State.completed_event e hc.1, hc.2⟩⟩
  refine Triple.bind (R := fun ok s t ↦ if ok = true then (LinkedLog s t ∧ T s t) ∧
      ∃ c ∈ s.can.tx.completed, c.mailbox = m ∧ c.ok = true else LinkedLog s t ∧ N s t)
    (Triple.access _ (linked_stable.and hs) ?_) fun ok ↦ Triple.ite (fun hok ↦ ?_) fun hok ↦ ?_
  · intro s t h
    split
    · next hok => exact ⟨⟨h.1, hit s t h.2 hok⟩, (s.can.tx.txok_iff m).mp hok⟩
    · next hok => exact ⟨h.1, miss s t h.2 (by simpa using hok)⟩
  · -- The register still holds the frame whose completion is flagged.
    refine Triple.bind (R := fun tir s t ↦ (LinkedLog s t ∧ T s t) ∧
      ∃ c ∈ s.can.tx.completed, c.mailbox = m ∧ c.ok = true ∧ c.held.TIR = tir)
      ((Triple.access _ (stays ht) ?_).pre fun s t h ↦ by rwa [if_pos hok] at h) fun tir ↦ ?_
    · rintro s t ⟨⟨hl, h⟩, c, hc, rfl, ho⟩
      exact ⟨⟨hl, tir s t h⟩, c, hc, rfl, ho, congrArg TxMailBox.TIR (hl c hc rfl).symm⟩
    · refine Triple.bind (R := fun _ s t ↦ LinkedLog s t ∧ s.can.tx.rqcp m = true ∧ B s t)
        (Triple.access _ (stays ht) ?_) fun _ ↦ done true
      rintro s t ⟨⟨hl, h⟩, c, hc, rfl, ho, rfl⟩
      exact ⟨hl, (s.can.tx.rqcp_iff _).mpr ⟨c, hc, rfl⟩, ack s t h c hc rfl ho⟩
  · refine Triple.bind (R := fun q s t ↦ LinkedLog s t ∧
        if q = true then s.can.tx.rqcp m = true ∧ B s t else J s t)
      ((Triple.access _ (linked_stable.and hn) ?_).pre fun s t h ↦ by rwa [if_neg hok] at h)
      fun q ↦ Triple.ite (fun hq ↦ ?_) fun hq ↦ ?_
    · intro s t h
      refine ⟨h.1, ?_⟩
      split
      · next hq => exact ⟨hq, rqcp s t h.2 hq⟩
      · next hq => exact idle s t h.2 (by simpa using hq)
    · exact (done false).pre fun s t h ↦ by rwa [if_pos hq] at h
    · exact Triple.pure false fun s t h ↦ by rwa [if_neg hq] at h

/-- Where the assertion between the rounds is the same. -/
theorem scanMailbox_rule {I T B : Assertion State Op} (m : Fin 3) (hs : Stable device I)
    (ht : Stable device T) (hb : Stable device fun s t ↦ s.can.tx.rqcp m = true ∧ B s t)
    (hit : ∀ s t, I s t → s.can.tx.txok m = true → T s (t ++ [(.read (.txok m), s)]))
    (miss : ∀ s t, I s t → s.can.tx.txok m = false → I s (t ++ [(.read (.txok m), s)]))
    (tir : OpKeeps device T (.read (.tir m)))
    (ack : ∀ s t, T s t → ∀ c ∈ s.can.tx.completed, c.mailbox = m → c.ok = true →
      B (s.exec (.addMessage [ackByte c.held])) (t ++ [(.addMessage [ackByte c.held], s)]))
    (rqcp : ∀ s t, I s t → s.can.tx.rqcp m = true → B s (t ++ [(.read (.rqcp m), s)]))
    (idle : ∀ s t, I s t → s.can.tx.rqcp m = false → I s (t ++ [(.read (.rqcp m), s)]))
    (clear : ∀ s t, B s t → I (s.exec (.clearRQCP m)) (t ++ [(.clearRQCP m, s)])) :
    Keeps (fun s t ↦ LinkedLog s t ∧ I s t) (scanMailbox m) :=
  scanMailbox_passes m hs hs ht hb hit miss tir ack rqcp idle clear

/-! ### Runs -/

section Quiet

variable {I : Assertion State Op} (hs : Stable device I)
  (hq : ∀ o : Op, o.quiet = true → OpKeeps device I o)

include hs hq

private theorem quiet_receive : Keeps I canIfReceiveOutData :=
  keeps_canIfReceiveOutData hs (hq _ rfl) fun _ ↦ hq _ rfl

private theorem quiet_kept (hm : ∀ m, Keeps I (scanMailbox m)) (hp : Keeps I canPostFrames) :
    Kept I where
  stable := hs
  tsr := hq _ rfl
  rfr := hq _ rfl
  fifo := hq _ rfl
  esr := hq _ rfl
  message _ hl := hq _ (Op.quiet_addMessage hl)
  release := hq _ rfl
  completion := hq _ rfl
  out := keeps_outCompletion (fun _ ↦ hq _ rfl) (fun _ ↦ hq _ rfl) (fun _ _ ↦ hq _ rfl) (hq _ rfl)
    (fun _ _ ↦ hq _ rfl) hp (quiet_receive hs hq)
  sent := keeps_canFrameSent hm hp (quiet_receive hs hq)
  error := keeps_canBusError hs (hq _ rfl) (fun _ hl ↦ hq _ (Op.quiet_addMessage hl)) (hq _ rfl)
    (fun _ ↦ hq _ rfl) (hq _ rfl)

/-- What quiet operations, the loop body of `Can_FrameSent` and `Can_PostFrames` keep, and
what holds at the start of a session, holds in every run. -/
theorem quiet_run (hm : ∀ m, Keeps I (scanMailbox m)) (hp : Keeps I canPostFrames)
    (hi : ∀ s : State, s.can.tx.completed = [] → I s []) (mailboxes : Fin 3 → TxMailBox)
    (txq : Nat → TxMailBox) (inb outb : Nat → UInt8) (steps : List Step) :
    I (run (boot mailboxes txq inb outb) steps).state
      (run (boot mailboxes txq inb outb) steps).trace := by
  have reset (s : State) (t : Log) (_ : I s t) : I (s.exec .resetCan) [] := hi _ rfl
  have hopen (bitrate init : Bool) : Keeps I (canIfOpen bitrate init) :=
    keeps_canIfOpen hs reset (hq _ rfl) (hq _ rfl) (quiet_receive hs hq) bitrate init
  have hclose (dropped : Bool) : Keeps I (canClose dropped) :=
    keeps_canClose hs reset (hq _ rfl) dropped
  exact (quiet_kept hs hq hm hp).run hopen hclose (hi _ rfl) steps

end Quiet

end CanDybug
