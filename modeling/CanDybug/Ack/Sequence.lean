import CanDybug.Ack.Flags

/-!
# The order of frames

If the peripheral transmits in the order of requests, the frames transmitted are in the
order in which they were posted. Frames are left out where a request was aborted.
-/

namespace CanDybug

open Base

/-- The peripheral transmits in the order in which requests were made, as with `TxFifoMode`. -/
def InRequestOrder (t : Log) : Prop :=
  ∀ e ∈ t, ∀ m, e.1 = .event (.txOk m) → e.2.can.tx.pending m = true →
    e.2.can.tx.requests.head?.map (·.mailbox) = some m

instance (t : Log) : Decidable (InRequestOrder t) := inferInstanceAs (Decidable (∀ e ∈ t, _))

/-- The frames in mailboxes with a request, oldest first. -/
def Transmitter.inFlight (u : Transmitter) : List TxMailBox :=
  u.requests.map fun r ↦ u.mailboxes r.mailbox

/-- Operations that change neither the frames in flight nor what was posted or transmitted. -/
def Op.steady : Op → Bool
  | event _ | postFrame _ | setTXRQ _ | resetCan => false
  | _ => true

theorem Op.steady_spec {o : Op} (h : o.steady = true) (s : State) :
    (s.exec o).can.tx.inFlight = s.can.tx.inFlight ∧ transmittedBy (o, s) = [] ∧
      postedBy (o, s) = [] := by
  cases o with
  | deliver bytes =>
    simp only [State.exec]
    split <;> exact ⟨rfl, rfl, rfl⟩
  | setABRQ m =>
    refine ⟨?_, rfl, rfl⟩
    simp [State.exec, State.onTx, Transmitter.abort, Transmitter.inFlight, Function.comp_def]
  | event | postFrame | setTXRQ | resetCan => contradiction
  | _ => exact ⟨rfl, rfl, rfl⟩

private theorem inFlight_complete {u : Transmitter} {m : Fin 3} (h : u.pending m = true)
    (ok : Bool) : (u.complete m ok).inFlight.Sublist u.inFlight := by
  simp only [Transmitter.inFlight, Transmitter.complete, dif_pos h]
  exact List.filter_sublist.map _

/-- The oldest request is the one that ends. -/
private theorem inFlight_head {u : Transmitter} {m : Fin 3} (h : u.pending m = true)
    (hh : u.requests.head?.map (·.mailbox) = some m) :
    u.mailboxes m :: (u.complete m true).inFlight = u.inFlight := by
  obtain ⟨r, rs, hrs⟩ : ∃ r rs, u.requests = r :: rs := by
    cases hr : u.requests with
    | nil => simp [hr] at hh
    | cons r rs => exact ⟨r, rs, rfl⟩
  obtain rfl : r.mailbox = m := by simpa [hrs] using hh
  have hn := (List.nodup_append.mp u.exclusive).1
  rw [hrs, List.map_cons, List.nodup_cons] at hn
  have hf : rs.filter (·.mailbox != r.mailbox) = rs := by
    refine List.filter_eq_self.mpr fun r' hr' ↦ ?_
    rw [bne_iff_ne]
    intro he
    exact hn.1 (List.mem_map.mpr ⟨r', hr', he⟩)
  simp only [Transmitter.inFlight, Transmitter.complete, dif_pos h, hrs, List.map_cons]
  rw [List.filter_cons_of_neg (by simp), hf]

/-- What an event transmits comes from the front of what is in flight. -/
private theorem inFlight_event {s : State} (e : Event)
    (h : ∀ m, e = .txOk m → s.can.tx.pending m = true →
      s.can.tx.requests.head?.map (·.mailbox) = some m) :
    (transmittedBy (.event e, s) ++ (s.exec (.event e)).can.tx.inFlight).Sublist
      s.can.tx.inFlight := by
  have he := s.txEvent e
  generalize (s.exec (.event e)).can.tx = u at he ⊢
  cases he with
  | idle _ n hi =>
    rw [transmittedBy_idle hi]
    exact List.Sublist.refl _
  | sent m hm =>
    rw [← inFlight_head hm (h m rfl hm)]
    simp [transmittedBy, hm]
  | aborted r hr => exact inFlight_complete ((s.can.tx.pending_iff _).mpr ⟨r, hr, rfl⟩) false

theorem inFlight_request {u : Transmitter} {m : Fin 3} (h : u.pending m = false) :
    (u.request m).inFlight = u.inFlight ++ [u.mailboxes m] := by
  rw [Transmitter.request, dif_neg (by simp [h])]
  simp [Transmitter.inFlight]

theorem inFlight_write {u : Transmitter} {m : Fin 3} (h : u.pending m = false)
    (mb : TxMailBox) : (u.write m mb).inFlight = u.inFlight := by
  refine List.map_congr_left fun r hr ↦ Function.update_of_ne (fun hm ↦ ?_) _ _
  rw [(u.pending_iff m).mpr ⟨r, hr, hm⟩] at h
  contradiction

/-- Frames transmitted, in flight, and written to a mailbox but not yet requested. -/
private def Posted (written : List TxMailBox) (s : State) (t : Log) : Prop :=
  InRequestOrder t → (transmitted t ++ (s.can.tx.inFlight ++ written)).Sublist (posted t)

private theorem inRequestOrder_concat {t : Log} {e : Op × State} (h : InRequestOrder (t ++ [e])) :
    InRequestOrder t ∧ ∀ m, e.1 = .event (.txOk m) → e.2.can.tx.pending m = true →
      e.2.can.tx.requests.head?.map (·.mailbox) = some m := by
  rw [InRequestOrder, List.forall_mem_append, List.forall_mem_singleton] at h
  exact h

private theorem Posted.event {written : List TxMailBox} {s : State} {t : Log}
    (h : Posted written s t) (e : Event) :
    Posted written (s.exec (.event e)) (t ++ [(.event e, s)]) := by
  intro hr
  obtain ⟨hr, he⟩ := inRequestOrder_concat hr
  have hp : postedBy (.event e, s) = [] := rfl
  rw [transmitted_concat, posted_concat, hp, List.append_nil, List.append_assoc,
    ← List.append_assoc (transmittedBy _)]
  refine List.Sublist.trans (List.Sublist.append_left (List.Sublist.append_right ?_ _) _) (h hr)
  exact inFlight_event e fun m hm ↦ he m (congrArg Op.event hm)

private theorem Posted.steady {written : List TxMailBox} {o : Op} (ho : o.steady = true) :
    OpKeeps device (Posted written) o := by
  intro s t h hr
  obtain ⟨hi, ht, hp⟩ := Op.steady_spec ho s
  have hi : (device.exec o s).can.tx.inFlight = s.can.tx.inFlight := hi
  rw [transmitted_concat, posted_concat, ht, hp, hi, List.append_nil, List.append_nil]
  exact h (inRequestOrder_concat hr).1

/-- Frames are transmitted in the order in which they were posted. -/
private def PostedLog (s : State) (t : Log) : Prop := Posted [] s t

private theorem posted_stable : Stable device PostedLog := fun e _ _ h ↦ h.event e

private theorem posted_postOne :
    Triple (fun s t ↦ PostedLog s t ∧ s.canTxQ.empty = false) postOne fun _ ↦ PostedLog := by
  refine postOne_rule posted_stable (W := fun m s t ↦ s.can.tx.pending m = false ∧
    Posted [s.can.tx.mailboxes m] s t) ?_ (Posted.steady rfl) ?_ ?_
  · intro m e s t ⟨hp, h⟩
    have hm : (device.exec (device.env e) s).can.tx.mailboxes = s.can.tx.mailboxes :=
      s.mailboxes_event e
    exact ⟨State.pending_event e hp, by rw [hm]; exact h.event e⟩
  · intro m s t h _ hp
    refine ⟨hp, fun hr ↦ ?_⟩
    have hm : (s.exec (.postFrame m)).can.tx.mailboxes m = s.canTxQ.get.1 :=
      Function.update_self _ _ _
    have hi : (s.exec (.postFrame m)).can.tx.inFlight = s.can.tx.inFlight := inFlight_write hp _
    have ht : transmittedBy (.postFrame m, s) = [] := rfl
    have hpost : postedBy (.postFrame m, s) = [s.canTxQ.get.1] := rfl
    rw [transmitted_concat, posted_concat, ht, hpost, hi, hm, List.append_nil, ← List.append_assoc]
    refine List.Sublist.append_right ?_ _
    have hs := h (inRequestOrder_concat hr).1
    rwa [List.append_nil] at hs
  · intro m s t ⟨hp, h⟩ hr
    have hi : (s.exec (.setTXRQ m)).can.tx.inFlight = s.can.tx.inFlight ++ [s.can.tx.mailboxes m] :=
      inFlight_request hp
    have ht : transmittedBy (.setTXRQ m, s) = [] := rfl
    have hpost : postedBy (.setTXRQ m, s) = [] := rfl
    rw [transmitted_concat, posted_concat, ht, hpost, hi, List.append_nil, List.append_nil,
      List.append_nil]
    exact h (inRequestOrder_concat hr).1

private theorem posted_receive : Keeps PostedLog canIfReceiveOutData :=
  keeps_canIfReceiveOutData posted_stable (Posted.steady rfl) fun _ ↦ Posted.steady rfl

private theorem posted_kept : Kept PostedLog where
  stable := posted_stable
  tsr := Posted.steady rfl
  rfr := Posted.steady rfl
  fifo := Posted.steady rfl
  esr := Posted.steady rfl
  message _ _ := Posted.steady rfl
  release := Posted.steady rfl
  completion := Posted.steady rfl
  out := keeps_outCompletion (fun _ ↦ Posted.steady rfl) (fun _ ↦ Posted.steady rfl)
    (fun _ _ ↦ Posted.steady rfl) (Posted.steady rfl) (fun _ _ ↦ Posted.steady rfl)
    (keeps_canPostFrames posted_postOne) posted_receive
  sent := keeps_canFrameSent (keeps_scanMailbox posted_stable (fun _ _ ↦ Posted.steady rfl)
    (fun _ ↦ Posted.steady rfl) fun _ ↦ Posted.steady rfl) (keeps_canPostFrames posted_postOne)
    posted_receive
  error := keeps_canBusError posted_stable (Posted.steady rfl) (fun _ _ ↦ Posted.steady rfl)
    (Posted.steady rfl) (fun _ ↦ Posted.steady rfl) (Posted.steady rfl)

/-- In every run, what is transmitted in the order of requests is in the order of posting. -/
theorem transmitted_sublist_posted (mailboxes : Fin 3 → TxMailBox) (txq : Nat → TxMailBox)
    (inb outb : Nat → UInt8) (steps : List Step)
    (hr : InRequestOrder (run (boot mailboxes txq inb outb) steps).trace) :
    (transmitted (run (boot mailboxes txq inb outb) steps).trace).Sublist
      (posted (run (boot mailboxes txq inb outb) steps).trace) := by
  have start (s : State) (h : s.can.tx.requests = []) : PostedLog s [] := fun _ ↦ by
    simp [transmitted, posted, Transmitter.inFlight, h]
  have reset (s : State) (t : Log) (_ : PostedLog s t) : PostedLog (s.exec .resetCan) [] :=
    start _ rfl
  have h : PostedLog (run (boot mailboxes txq inb outb) steps).state
      (run (boot mailboxes txq inb outb) steps).trace := posted_kept.run
    (keeps_canIfOpen posted_stable reset (Posted.steady rfl) (Posted.steady rfl) posted_receive)
    (keeps_canClose posted_stable reset (Posted.steady rfl)) (start _ rfl) steps
  exact (List.sublist_append_left _ _).trans (h hr)

end CanDybug
