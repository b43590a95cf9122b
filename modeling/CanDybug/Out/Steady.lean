import CanDybug.Out.Liveness

/-!
# Without aborts and errors

Where no request is aborted and no `TXOK` is cleared unseen, no step strands a frame; and where
besides no error blocks transmission when reception is evaluated, nothing starves the OUT pipe.
-/

namespace CanDybug

open Base

/-- Whenever `Can_FrameSent` reads `RQCP` of a mailbox, its `TXOK` is still clear. -/
def ClearsSeen (t : Log) : Prop :=
  ∀ e ∈ t, ∀ m, e.1 = .read (.rqcp m) → e.2.can.tx.txok m = false

/-- A `TXOK` is cleared only where frames are still to be posted because one has been seen. -/
def NoBlindClear (t : Log) : Prop :=
  posting.Along (fun due e ↦ ∀ m, e.1 = .clearRQCP m → due = true ∨ e.2.can.tx.txok m = false) t

/-- An error blocks where `CanIf_ReceiveOutData` looks, `Can_BusError` finds a request to abort, or
`Can_FrameSent` reads `RQCP` while `TXOK` is set. -/
def hinders (e : Op × State) : Bool :=
  match e.1 with
  | .receiveOutData => e.2.can.blocked
  | .setABRQ m => e.2.can.tx.pending m
  | .read (.rqcp m) => e.2.can.tx.txok m
  | _ => false

/-- Nothing hinders. -/
def Unhindered (t : Log) : Prop := ∀ e ∈ t, hinders e = false

instance decidableUnhindered (t : Log) : Decidable (Unhindered t) :=
  inferInstanceAs (Decidable (∀ e ∈ t, _))

theorem noBlindClear_concat (t : Log) (e : Op × State) :
    NoBlindClear (t ++ [e]) ↔ NoBlindClear t ∧
      ∀ m, e.1 = .clearRQCP m → posting.after t = true ∨ e.2.can.tx.txok m = false :=
  Monitor.along_concat t e

/-- A transfer that ends with a message that is not valid, an abort and an unseen `TXOK` are all
that may strand a frame. -/
theorem neverStrands_of {t : Log} (valid : stopped t = false)
    (noAbort : ∀ e ∈ t, ∀ m, e.1 = .event (.txAbort m) → e.2.can.tx.aborting m = false)
    (seen : NoBlindClear t) : NeverStrands t := by
  induction t using List.reverseRecOn with
  | nil => exact Monitor.along_nil
  | append_singleton t e ih =>
    obtain ⟨hv, hstop⟩ := not_stopped_concat valid
    obtain ⟨hseen, hlast⟩ := (noBlindClear_concat t e).mp seen
    obtain ⟨ha, hl⟩ := List.forall_mem_append.mp noAbort
    refine (Monitor.along_concat t e).mpr ⟨ih hv ha hseen, ?_⟩
    rw [Monitor.after_both]
    unfold strands
    split
    · next h => exact absurd h hstop
    · next m h => simp [List.forall_mem_singleton.mp hl m h]
    · next m h => rcases hlast m h with h | h <;> simp [h]
    · rfl

/-! ### Flags that are seen -/

/-- A `TXOK` that is clear when `RQCP` is read as set stays clear until that is cleared. -/
private def Sighted (_ : State) (t : Log) : Prop := ClearsSeen t → NoBlindClear t

private theorem sighted_concat {s s' : State} {t : Log} (h : Sighted s t) {e : Op × State}
    (he : ClearsSeen (t ++ [e]) →
      ∀ m, e.1 = .clearRQCP m → posting.after t = true ∨ e.2.can.tx.txok m = false) :
    Sighted s' (t ++ [e]) := fun ht ↦
  (noBlindClear_concat t e).mpr ⟨h (List.forall_mem_append.mp ht).1, he ht⟩

/-- Operations that clear nothing. -/
private theorem sighted_keep {o : Op} (ho : ∀ m, o ≠ .clearRQCP m) : OpKeeps device Sighted o :=
  fun _ _ h ↦ sighted_concat h fun _ m hm ↦ absurd hm (ho m)

private theorem sighted_stable : Stable device Sighted := fun e ↦
  sighted_keep (o := .event e) nofun

/-- With frames still to be posted any flag may be cleared. -/
private def SightedDue (s : State) (t : Log) : Prop := Sighted s t ∧ posting.after t = true

private theorem sightedDue_keep {o : Op} (ho : ∀ s, posting.next true (o, s) = true) :
    OpKeeps device SightedDue o := fun s t h ↦
  ⟨sighted_concat h.1 fun _ _ _ ↦ .inl h.2, by rw [Monitor.after_concat, h.2]; exact ho s⟩

/-- The flags of a mailbox that has completed stay as they are. -/
theorem txok_event {s : State} {m : Fin 3} (hq : s.can.tx.rqcp m = true)
    (h : s.can.tx.txok m = false) (e : Event) : (s.exec (.event e)).can.tx.txok m = false := by
  obtain ⟨c, hc, hm⟩ := (s.can.tx.rqcp_iff m).mp hq
  have hcomplete (m' : Fin 3) (ok : Bool) (hp : s.can.tx.pending m' = true) :
      (s.can.tx.complete m' ok).txok m = false := by
    have hne : m' ≠ m := fun he ↦ Transmitter.not_completed hp c hc (hm.trans he.symm)
    rw [Transmitter.txok, Transmitter.complete, dif_pos hp]
    rw [Transmitter.txok] at h
    simp [List.any_append, h, hne]
  have he := s.txEvent e
  generalize (s.exec (.event e)).can.tx = u at he ⊢
  cases he with
  | idle => exact h
  | sent m' hp => exact hcomplete m' true hp
  | aborted r hr =>
    exact hcomplete r.mailbox false ((s.can.tx.pending_iff _).mpr ⟨r, hr, rfl⟩)

private theorem sighted_canPostFrames : Keeps Sighted canPostFrames :=
  keeps_canPostFrames (keeps_postOne sighted_stable (sighted_keep nofun)
    (fun _ s t h _ ↦ sighted_keep (by simp) s t h) fun _ ↦ sighted_keep (by simp))

private theorem sighted_receive : Keeps Sighted canIfReceiveOutData :=
  keeps_canIfReceiveOutData sighted_stable (sighted_keep nofun) fun _ ↦ sighted_keep nofun

private theorem sighted_canFrameSent : Keeps Sighted canFrameSent := by
  have due : Stable device SightedDue := fun _ ↦ sightedDue_keep fun _ ↦ rfl
  have clear (m : Fin 3) : Stable device fun s t ↦ Sighted s t ∧
      (ClearsSeen t → s.can.tx.rqcp m = true ∧ s.can.tx.txok m = false) := fun e s t h ↦
    ⟨sighted_stable e s t h.1, fun hc ↦ by
      obtain ⟨hq, ht⟩ := h.2 (List.forall_mem_append.mp hc).1
      obtain ⟨c, hm, hcm⟩ := (s.can.tx.rqcp_iff m).mp hq
      exact ⟨(Transmitter.rqcp_iff _ m).mpr ⟨c, State.completed_event e hm, hcm⟩,
        txok_event hq ht e⟩⟩
  refine canFrameSent_rule (S := SightedDue) (fun m ↦ ?_) (fun m ↦ ?_) ?_ fun _ _ h ↦ h
  · refine scanMailbox_sent sighted_stable due (clear m) m
      (fun s t h hok ↦ ⟨sighted_keep (by simp) s t h, ?_⟩) (fun s t h _ ↦ sighted_keep (by simp) s t h)
      (sightedDue_keep fun _ ↦ rfl) (fun _ ↦ sightedDue_keep fun _ ↦ rfl)
      (sightedDue_keep fun _ ↦ rfl) ?_ (fun s t h _ ↦ sighted_keep (by simp) s t h) ?_
    · rw [Monitor.after_concat]
      exact Bool.or_eq_true_iff.mpr (.inr hok)
    · intro s t h hq
      refine ⟨sighted_keep (by simp) s t h, fun hc ↦ ⟨hq, ?_⟩⟩
      exact List.forall_mem_singleton.mp (List.forall_mem_append.mp hc).2 m rfl
    · intro s t h
      refine sighted_concat h.1 fun hc m' hm ↦ .inr ?_
      cases hm
      exact (h.2 (List.forall_mem_append.mp hc).1).2
  · refine keeps_scanMailbox due (fun r hr ↦ sightedDue_keep fun s ↦ ?_)
      (fun _ ↦ sightedDue_keep fun _ ↦ rfl) (fun _ ↦ sightedDue_keep fun _ ↦ rfl) m
    cases r <;> first | rfl | contradiction
  · exact (keeps_bind sighted_canPostFrames fun _ ↦ sighted_receive).pre fun _ _ h ↦ h.1

/-- With all flags seen no `TXOK` is cleared blindly. -/
private theorem sighted_kept : Kept Sighted where
  stable := sighted_stable
  tsr := sighted_keep nofun
  rfr := sighted_keep nofun
  fifo := sighted_keep nofun
  esr := sighted_keep nofun
  message _ _ := sighted_keep nofun
  release := sighted_keep nofun
  completion := sighted_keep nofun
  out := keeps_outCompletion (fun _ ↦ sighted_keep nofun) (fun _ ↦ sighted_keep nofun)
    (fun _ _ ↦ sighted_keep nofun) (sighted_keep nofun) (fun _ _ ↦ sighted_keep nofun)
    sighted_canPostFrames sighted_receive
  sent := sighted_canFrameSent
  error := keeps_canBusError sighted_stable (sighted_keep nofun) (fun _ _ ↦ sighted_keep nofun)
    (sighted_keep nofun) (fun _ ↦ sighted_keep nofun) (sighted_keep nofun)

/-! ### Requests that are not aborted -/

/-- No request is being aborted, no abort has taken effect, and the pipe is not starved. -/
private structure Calm (s : State) (t : Log) : Prop where
  requests : ∀ r ∈ s.can.tx.requests, r.aborting = false
  aborts : ∀ e ∈ t, ∀ m, e.1 = .event (.txAbort m) → e.2.can.tx.aborting m = false
  fed : starved t = false

/-- `ABRQ` means nothing to a mailbox without a request. -/
private theorem abort_of_not_pending {u : Transmitter} {m : Fin 3} (h : u.pending m = false) :
    (u.abort m).requests = u.requests := by
  rw [Transmitter.pending, List.any_eq_false] at h
  exact (List.map_congr_left fun r hr ↦ if_neg fun hm ↦ h r hr (beq_iff_eq.mpr hm)).trans
    (List.map_id _)

/-- Of the operations only one makes a request, and one marks requests for abort. -/
private theorem requests_exec {o : Op} {s : State}
    (ho : ∀ m, o = .setABRQ m → s.can.tx.pending m = false) :
    ∀ r ∈ (s.exec o).can.tx.requests, r ∈ s.can.tx.requests ∨ r.aborting = false := by
  cases o with
  | event e => exact fun r hr ↦ .inl (s.requests_event e hr)
  | deliver bytes =>
    rw [(s.exec_delivered bytes).1]
    exact fun _ ↦ .inl
  | resetCan => exact nofun
  | setTXRQ m =>
    change ∀ r ∈ (s.can.tx.request m).requests, _
    unfold Transmitter.request
    split
    · exact fun _ ↦ .inl
    · intro r hr
      rcases List.mem_append.mp hr with hr | hr
      · exact .inl hr
      · exact .inr (List.mem_singleton.mp hr ▸ rfl)
  | setABRQ m =>
    change ∀ r ∈ (s.can.tx.abort m).requests, _
    rw [abort_of_not_pending (ho m rfl)]
    exact fun _ ↦ .inl
  | _ => exact fun _ ↦ .inl

private theorem Calm.concat {s s' : State} {t : Log} (h : Calm s t) {o : Op}
    (hr : ∀ r ∈ s'.can.tx.requests, r ∈ s.can.tx.requests ∨ r.aborting = false)
    (hs : starves (posting.after t) (o, s) = false) : Calm s' (t ++ [(o, s)]) := by
  refine ⟨fun r hm ↦ (hr r hm).elim (h.requests r) id, ?_, by rw [starved_concat, hs, h.fed]; rfl⟩
  refine List.forall_mem_append.mpr ⟨h.aborts, List.forall_mem_singleton.mpr fun m _ ↦ ?_⟩
  rw [Transmitter.aborting, List.any_eq_false]
  intro r hr
  simp [h.requests r hr]

/-- Apart from the reset of the queue, no operation that is not hindered starves the pipe. -/
private theorem Calm.step {s : State} {t : Log} (h : Calm s t) {o : Op} (ho : o ≠ .resetTxQ)
    (hu : hinders (o, s) = false)
    (hb : ∀ m, o = .clearRQCP m → posting.after t = true ∨ s.can.tx.txok m = false) :
    Calm (s.exec o) (t ++ [(o, s)]) := by
  refine h.concat (requests_exec ?_) ?_
  · rintro m rfl
    exact hu
  · unfold starves
    split
    · next he =>
      cases he
      simp [show s.can.blocked = false from hu]
    · -- A mailbox that is not empty has a request.
      rw [Bool.and_eq_false_iff, Bool.not_eq_false']
      by_contra hc
      obtain ⟨hfull, hspent⟩ := not_or.mp hc
      have hp : s.can.tx.pending 0 = true := by
        by_contra hp
        exact hfull (anyEmpty_of_not_pending (by simpa using hp))
      obtain ⟨r, hr, -⟩ := (s.can.tx.pending_iff 0).mp hp
      apply hspent
      rw [State.spent, Bool.and_eq_false_iff, List.all_eq_false]
      exact .inr ⟨r, hr, by simp [h.requests r hr]⟩
    · exact absurd ‹_› ho
    · next m he =>
      rcases hb m he with h | h <;> simp [h]
    · rfl

/-- With no aborts all requests that are left where `Can_BusError` resets the queue would be being
aborted: there are none, and what is outstanding is a transfer or a flag. -/
private theorem Calm.resetTxQ {s : State} {t : Log} (h : Calm s t) (hl : s.live = true)
    (hall : ∀ r ∈ s.can.tx.requests, r.aborting = true) :
    Calm (s.exec .resetTxQ) (t ++ [(.resetTxQ, s)]) := by
  have hnone : s.can.tx.requests = [] := by
    refine List.eq_nil_iff_forall_not_mem.mpr fun r hr ↦ ?_
    have ha := h.requests r hr
    rw [hall r hr] at ha
    contradiction
  refine h.concat (fun _ ↦ .inl) ?_
  change (s.armed.isNone && !s.flagged fun _ ↦ true) = false
  rw [State.live, hnone, List.any_nil, Bool.or_false] at hl
  cases harm : s.armed <;> simp_all

section Session

variable (mailboxes : Fin 3 → TxMailBox) (txq : Nat → TxMailBox) (inb outb : Nat → UInt8)
  (before : List Step) (script : List (List Event)) {steps : List Step}
  (session : ∀ a ∈ steps, a.action.inSession = true) {c : Config}
  (hc : c = run (boot mailboxes txq inb outb)
    (before ++ [⟨.canIfOpen true true, script⟩] ++ steps))

include session hc

theorem noBlindClear_session (seen : ClearsSeen c.trace) : NoBlindClear c.trace := by
  have opens : Triple SoundLog (canIfOpen true true) fun _ ↦ Sighted :=
    canIfOpen_rule (R := Sighted) (S := Sighted) (E := Sighted) soundLog_stable sighted_stable
      (fun _ _ _ _ ↦ Monitor.along_nil) (sighted_keep (o := .canStart) nofun)
      (sighted_keep (o := .emptyBuffers) nofun) sighted_receive
  exact opened_session sighted_kept opens mailboxes txq inb outb before script session hc seen

end Session

end CanDybug
