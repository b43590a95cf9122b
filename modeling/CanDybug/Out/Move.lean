import CanDybug.Device.Log
import CanDybug.Out.Buffer

/-!
# Moving the fragment

`CanIf_EpOutComplete` moves the fragment that a transfer leaves with `memcpy`, which requires
that the bytes it reads and the bytes it writes are different ones. Whether they are depends
on where the host cuts the stream: the fragment must not be longer than what is in front of it
in the buffer, which are the messages that the transfer completes.
-/

namespace CanDybug

open Base

/-- What `memcpy` reads. It writes as many bytes from the beginning of the buffer on. -/
def Op.source : Op → Region
  | moveFragment pbuf length => ⟨pbuf, length⟩
  | _ => ⟨0, 0⟩

/-- There is nothing to move, or the destination ends before the source. -/
def Apart (o : Op) : Prop := o.source.length = 0 ∨ o.source.length ≤ o.source.start

instance decidableApart (o : Op) : Decidable (Apart o) := inferInstanceAs (Decidable (_ ∨ _))

/-- That is, no byte is both read and written. -/
theorem apart_iff (o : Op) :
    Apart o ↔ ∀ i j, i < o.source.length → j < o.source.length → o.source.start + i ≠ 0 + j := by
  unfold Apart
  constructor
  · intro h i j hi hj
    omega
  · intro h
    by_cases hs : o.source.start < o.source.length
    · exact absurd (Nat.zero_add _).symm (h 0 o.source.start (by omega) hs)
    · omega

/-- Then the fragment arrives as it was in whatever order its bytes are copied. -/
theorem moveFragment_inOrder {pbuf length : Nat} (h : Apart (.moveFragment pbuf length))
    {order : List Nat} (hp : order.Perm (List.range length)) (s : State) :
    copyInOrder s.canIfOut.buffer 0 pbuf order =
      (s.exec (.moveFragment pbuf length)).canIfOut.buffer :=
  copyInOrder_eq_copy _ ((apart_iff _).mp h) hp

/-- Where they overlap it does not: thirteen bytes from index 4 on, the last one first. -/
example : cells (copyInOrder id 0 4 (List.range 13).reverse) 0 13 ≠ cells id 4 13 := by decide

/-- Where the data of the outstanding transfer starts, with the fragment in front of it. -/
def State.rewound (s : State) : Nat :=
  match s.armed with
  | some g => g.start - s.canIfOut.offset
  | none => 0

/-- Of data from an index of the buffer on, the incomplete message at the end is no longer than
what is in front of it. -/
def EndsApart (start : Nat) (data : List UInt8) : Prop :=
  (dataPipe.scan data).2.length ≤ start + (data.length - (dataPipe.scan data).2.length)

instance decidableEndsApart (start : Nat) (data : List UInt8) : Decidable (EndsApart start data) :=
  inferInstanceAs (Decidable (_ ≤ _))

/-- Data made of whole messages and a part of one. -/
theorem endsApart_iff {whole r : List UInt8} {fs : List Frame} (hw : dataPipe.Stream whole fs)
    (hr : dataPipe.scan r = ([], .fragment r)) (start : Nat) :
    EndsApart start (whole ++ r) ↔ r.length ≤ start + whole.length := by
  have hlen : (dataPipe.scan (whole ++ r)).2.length = r.length := by
    rw [dataPipe.scan_stream hw, hr]
    rfl
  rw [EndsApart, hlen, List.length_append, Nat.add_sub_cancel]

/-- A transfer is cut so that its data ends that way. -/
def CutToFit (e : Op × State) : Prop :=
  e.1.delivers = true → EndsApart e.2.rewound (e.2.data e.1.delivered)

instance decidableCutToFit (e : Op × State) : Decidable (CutToFit e) :=
  inferInstanceAs (Decidable (_ → _))

/-! ### The loop -/

/-- Between handlers: all moves were between different bytes exactly if all transfers fitted. -/
private def AllFit (_ : State) (t : Log) : Prop :=
  (∀ e ∈ t, Apart e.1) ↔ ∀ e ∈ t, CutToFit e

/-- In the loop, which stands at `pbuf` with `length` bytes left: the last transfer fits if they
end so that the fragment can be moved. -/
private def AllFitAt (pbuf length : Nat) (s : State) (t : Log) : Prop :=
  (∀ e ∈ t, CutToFit e) ↔
    (∀ e ∈ t, Apart e.1) ∧ EndsApart pbuf (cells s.canIfOut.buffer pbuf length)

private theorem apart_other {o : Op} (s : State) (t : Log) (h : o.source = ⟨0, 0⟩) :
    (∀ e ∈ t ++ [(o, s)], Apart e.1) ↔ ∀ e ∈ t, Apart e.1 := by
  rw [List.forall_mem_append, List.forall_mem_singleton, and_iff_left]
  rw [Apart, h]
  exact .inl rfl

private theorem cutToFit_other {o : Op} (s : State) (t : Log) (h : o.delivers = false) :
    (∀ e ∈ t ++ [(o, s)], CutToFit e) ↔ ∀ e ∈ t, CutToFit e := by
  rw [List.forall_mem_append, List.forall_mem_singleton, and_iff_left]
  intro hd
  rw [h] at hd
  contradiction

private theorem AllFit.other {s s' : State} {t : Log} (h : AllFit s t) {o : Op}
    (ha : o.source = ⟨0, 0⟩) (hd : o.delivers = false) : AllFit s' (t ++ [(o, s)]) := by
  rw [AllFit, apart_other s t ha, cutToFit_other s t hd]
  exact h

private theorem endsApart_invalid (start : Nat) {data : List UInt8}
    (h : dataPipe.scan data = ([], .invalid)) : EndsApart start data := by
  rw [EndsApart, h]
  exact Nat.zero_le _

/-- The data that the loop starts with is that of the transfer. -/
private theorem allFitAt_start {s : State} {t : Log} (hs : Sound s) (h : AllFit s t) {g : Region}
    (hg : s.armed = some g) (bytes : List UInt8) :
    AllFitAt (g.start - s.canIfOut.offset) (bytes.length + s.canIfOut.offset)
      (loopStart s bytes g) (t ++ loopEntries s bytes g) := by
  have hfits : CutToFit (.deliver bytes, s) ↔
      EndsApart (g.start - s.canIfOut.offset) (s.data bytes) := by
    have hstart : s.rewound = g.start - s.canIfOut.offset := by rw [State.rewound, hg]
    rw [← hstart]
    exact ⟨fun h ↦ h rfl, fun h _ ↦ h⟩
  rw [AllFitAt, cells_loopStart hs hg, loopEntries, List.append_cons, cutToFit_other _ _ rfl,
    apart_other _ _ rfl, apart_other _ _ rfl, List.forall_mem_append, List.forall_mem_singleton,
    hfits]
  exact and_congr_left' h.symm

/-- Behind a message there is as much less data as there is more in front of it. -/
private theorem endsApart_next {buffer : Nat → UInt8} {pbuf length n : Nat}
    (he : n = (buffer pbuf).toNat) (hn : n ≤ length) (h0 : n ≠ 0) {f : Frame}
    (hrow : Row (cells buffer (pbuf + 1) (n - 1)) f) :
    EndsApart pbuf (cells buffer pbuf length) ↔
      EndsApart (pbuf + n) (cells buffer (pbuf + n) (length - n)) := by
  have hle := dataPipe.scan_length_le (cells buffer (pbuf + n) (length - n))
  rw [EndsApart, EndsApart, scan_cells_some he hn h0 hrow]
  simp only [length_cells] at hle ⊢
  omega

/-- The fragment is moved to different bytes exactly if the data ends so. -/
private theorem apart_moveFragment {buffer : Nat → UInt8} {pbuf length : Nat}
    (hn : length < (buffer pbuf).toNat) :
    Apart (.moveFragment pbuf length) ↔ EndsApart pbuf (cells buffer pbuf length) := by
  have hends := endsApart_iff .nil (scan_cells_short rfl hn) pbuf
  rw [List.nil_append, length_cells] at hends
  rw [hends]
  change length = 0 ∨ length ≤ pbuf ↔ length ≤ pbuf + 0
  omega

/-- In every run, and since the last `CanIf_Open` or `Can_Close`: every fragment is moved to
bytes other than its own exactly if every transfer is cut so that the incomplete message which
its data ends with is no longer than the messages before it, with the bytes in front of the
data. -/
theorem moveFragment_apart (mailboxes : Fin 3 → TxMailBox) (txq : Nat → TxMailBox)
    (inb outb : Nat → UInt8) (steps : List Step) :
    (∀ e ∈ (run (boot mailboxes txq inb outb) steps).trace, Apart e.1) ↔
      ∀ e ∈ (run (boot mailboxes txq inb outb) steps).trace, CutToFit e := by
  have nil : (∀ e ∈ ([] : Log), Apart e.1) ↔ ∀ e ∈ ([] : Log), CutToFit e := by simp
  have receive : Triple (fun s t ↦ AllFit s t ∧ SoundLog s t) canIfReceiveOutData
      fun _ ↦ AllFit :=
    (keeps_canIfReceiveOutData (fun e s t h ↦ h.other rfl rfl) (fun s t h ↦ h.other rfl rfl)
      fun g s t h ↦ h.other rfl rfl).pre fun _ _ h ↦ h.1
  refine outBuffer_run (I := AllFit) (L := AllFitAt) (c := boot mailboxes txq inb outb)
    ?_ (fun _ _ _ ↦ nil) receive ?_ ?_ ?_ ?_ ?_ ⟨nil, soundLog_boot mailboxes txq inb outb⟩ steps
  · intro o ho s t _ h
    refine h.other ?_ ?_
    · cases o <;> first | rfl | contradiction
    · cases o <;> first | rfl | contradiction
  · intro bytes g s t hs h hg _
    exact allFitAt_start hs.1 h hg bytes
  · intro pbuf length s t hr h n he hn h0 ha
    obtain ⟨f, -, hrow, -⟩ := accepted_spec hr.sound.1.queue ha
    rw [AllFitAt, cutToFit_other _ _ rfl, apart_other _ _ rfl]
    exact h.trans (and_congr_right' (endsApart_next he hn h0 hrow))
  · intro pbuf length s t hr h n he hn h0 ha s' _
    have hscan := scan_cells_none he hn h0 (rejected_spec hr.sound.1.queue ha).1
    rw [AllFit, cutToFit_other _ _ rfl, cutToFit_other _ _ rfl, apart_other _ _ rfl,
      apart_other _ _ rfl]
    exact (h.trans (and_iff_left (endsApart_invalid _ hscan))).symm
  · intro pbuf length s t _ h hl h0
    rw [AllFit, cutToFit_other _ _ rfl, apart_other _ _ rfl]
    exact (h.trans (and_iff_left (endsApart_invalid _ (scan_cells_zero rfl hl h0)))).symm
  · intro pbuf length s t _ h hn
    rw [AllFit, cutToFit_other _ _ rfl, List.forall_mem_append, List.forall_mem_singleton,
      apart_moveFragment hn]
    exact h.symm

/-- A remote frame of four bytes, and thirteen of the fourteen bytes of a data frame. -/
def cutShort : List Step :=
  [⟨.epOutComplete [4, 2, 0, 1, 14, 4, 0, 0, 0, 1, 1, 2, 3, 4, 5, 6, 7], []⟩]

/-- The fragment is moved from the bytes from 4 up to 17 to those up to 13. -/
theorem moveFragment_overlaps :
    ¬ ∀ mailboxes txq inb outb before script steps,
      (∀ a ∈ steps, a.action.inSession = true) →
      ∀ messages : List (List UInt8), (∀ m ∈ messages, ∃ f, dataPipe.Message m f) → ∀ c,
      c = run (boot mailboxes txq inb outb)
        (before ++ [⟨.canIfOpen true true, script⟩] ++ steps) →
      received c.trace <+: messages.flatten → ∀ e ∈ c.trace, Apart e.1 := by
  intro h
  have hn := h (fun _ ↦ ⟨0, 0, 0, 0⟩) (fun _ ↦ ⟨0, 0, 0, 0⟩) (fun _ ↦ 0) (fun _ ↦ 0) [] []
    cutShort (by simp [cutShort, Action.inSession])
    [[4, 2, 0, 1], [14, 4, 0, 0, 0, 1, 1, 2, 3, 4, 5, 6, 7, 8]]
    (List.forall_mem_cons.mpr ⟨⟨_, 4, _, rfl, rfl, rfl⟩,
      List.forall_mem_singleton.mpr ⟨_, 14, _, rfl, rfl, rfl⟩⟩) _ rfl (by decide +kernel)
  revert hn
  decide +kernel

end CanDybug
