import CanDybug.In.Pipe

/-!
# Lifetime of a region in flight

`USBD_CDC_Transmit` keeps a pointer into `CanIf_IN.buffer`, and the host fetches the region
packet by packet. `CanIf_SendInData` moves the tail when a transfer starts, not when it
completes, so the space test of `CanIf_AddMessage` counts the region in flight as free. The
region is left alone exactly if each message that is taken ends before it.
-/

namespace CanDybug

open Base

/-- An IN transfer in flight: its region, the bytes queued there when it was accepted, and
the bytes the host has fetched. -/
structure Transfer where
  region : Region
  queued : List UInt8
  fetched : List UInt8
  deriving DecidableEq

/-- `CanIf_IN` and the transfer that the USB library has in flight. -/
structure InPipe where
  queue : Queue UInt8
  transfer : Option Transfer

/-- What happens to the pipe. `ready` is whether `USBD_CDC_Transmit` accepts a transfer if
none is in flight; `epInComplete` is the completion of the one in flight; `drop` is the
library giving it up. -/
inductive InStep where
  | addMessage (msg : List UInt8) (ready : Bool)
  | epInComplete (ready : Bool)
  | canIfOpen
  | fetch (n : Nat)
  | drop
  deriving DecidableEq

namespace InPipe

/-- `USBD_CDC_Transmit` accepts while no transfer is in flight. -/
def accepts (p : InPipe) (ready : Bool) : Bool := ready && p.transfer.isNone

/-- The pipe after a call that offered a region; the region is in flight if accepted. -/
def after (p : InPipe) (accept : Bool) (r : Option Region × Queue UInt8) : InPipe where
  queue := r.2
  transfer := if accept then r.1.map fun g ↦ ⟨g, g.bytes r.2.buffer, []⟩ else p.transfer

/-- `CanIf_AddMessage`, `can_if.c:237–246`. -/
def addMessage (p : InPipe) (msg : List UInt8) (ready : Bool) : InPipe :=
  p.after (p.accepts ready) (canIfAddMessage (p.accepts ready) msg p.queue)

/-- Completion of the transfer in flight and `CanIf_EpInComplete`, `can_if.c:184–187`. -/
def epInComplete (p : InPipe) (ready : Bool) : InPipe :=
  if p.transfer.isSome then
    { p with transfer := none }.after ready (canIfSendInData ready p.queue)
  else p

/-- The pipe's part of `CanIf_Open`, `can_if.c:114`. -/
def canIfOpen (p : InPipe) : InPipe := { p with queue := p.queue.reset }

/-- The host fetches the next bytes of the region. -/
def fetch (p : InPipe) (n : Nat) : InPipe :=
  { p with transfer := p.transfer.map fun t ↦
      { t with fetched := t.fetched ++
          ((t.region.bytes p.queue.buffer).drop t.fetched.length).take n } }

/-- One step. -/
def step (p : InPipe) : InStep → InPipe
  | .addMessage msg ready => p.addMessage msg ready
  | .epInComplete ready => p.epInComplete ready
  | .canIfOpen => p.canIfOpen
  | .fetch n => p.fetch n
  | .drop => { p with transfer := none }

/-- Any sequence of steps. -/
def run (p : InPipe) (steps : List InStep) : InPipe := steps.foldl step p

/-- A property of each step of a run. -/
def Along (P : InPipe → InStep → Prop) : InPipe → List InStep → Prop
  | _, [] => True
  | p, s :: steps => P p s ∧ Along P (p.step s) steps

/-- Nothing queued and nothing in flight, over any buffer. -/
def initial (buffer : Nat → UInt8) : InPipe := ⟨⟨canifInDataSize, 0, 0, buffer⟩, none⟩

/-- Invariant of the pipe. -/
structure Valid (p : InPipe) : Prop where
  wellFormed : p.queue.WellFormed
  size : p.queue.size = canifInDataSize
  region : ∀ t, p.transfer = some t →
    0 < t.region.length ∧ t.region.start + t.region.length ≤ canifInDataSize + 1

/-- The region in flight holds what was queued there, and so does what was fetched. -/
def Intact (p : InPipe) : Prop :=
  ∀ t, p.transfer = some t → t.region.bytes p.queue.buffer = t.queued ∧ t.fetched <+: t.queued

end InPipe

/-! ### The slots a message is stored in -/

/-- `CanIf_AddMessage` stores to slot `i`: over some contents of the buffer it changes it. -/
def Stores (msg : List UInt8) (q : Queue UInt8) (i : Nat) : Prop :=
  ∃ buffer accept, (canIfAddMessage accept msg { q with buffer }).2.buffer i ≠ buffer i

/-- A message that is taken is stored in the slots after the head, and nowhere else. -/
theorem stores_iff {q : Queue UInt8} (hq : q.WellFormed) (msg : List UInt8) (i : Nat) :
    Stores msg q i ↔ msg.length + 1 ≤ q.space ∧
      ∃ k, k < msg.length + 1 ∧ i = (q.head + 1 + k) % (q.size + 1) := by
  have hsp := Queue.space_eq hq
  have hw (buffer : Nat → UInt8) : { q with buffer }.WellFormed :=
    ⟨hq.head_le, hq.tail_le, hq.size_lt⟩
  by_cases hf : msg.length + 1 ≤ q.size - q.count
  · have hadd (buffer : Nat → UInt8) (accept : Bool) :
        (canIfAddMessage accept msg { q with buffer }).2.buffer =
          ({ q with buffer }.putAll (encode msg)).buffer := by
      rw [addMessage_fits (hw buffer) hf]
      exact (sendInData_wellFormed ((hw buffer).putAll _) accept).2.2
    constructor
    · rintro ⟨buffer, accept, hne⟩
      refine ⟨by omega, ?_⟩
      by_contra hk
      rw [hadd] at hne
      exact hne (Queue.buffer_putAll_of_ne (hw buffer) _ fun k hk' he ↦ hk ⟨k, hk', he⟩)
    · rintro ⟨-, k, hk, rfl⟩
      -- What the slot holds afterwards does not depend on what it held.
      have hl : (encode msg).length ≤ q.size := by rw [length_encode]; omega
      obtain ⟨x, hx⟩ : ∃ x, ∀ buffer, ({ q with buffer }.putAll (encode msg)).buffer
          ((q.head + 1 + k) % (q.size + 1)) = x :=
        ⟨_, fun buffer ↦ Queue.buffer_putAll (hw buffer) (encode msg) hl hk⟩
      refine ⟨fun _ ↦ x + 1, true, ?_⟩
      rw [hadd, hx]
      simp
  · constructor
    · rintro ⟨buffer, accept, hne⟩
      rw [addMessage_full (hw buffer) hf] at hne
      exact absurd rfl hne
    · rintro ⟨hs, -⟩
      omega

/-- The slots from the one after the head up to the region. -/
def gap (q : Queue UInt8) (g : Region) : Nat :=
  (g.start + (q.size + 1) - q.nextSlot) % (q.size + 1)

/-- The slots after the head stay clear of the region exactly up to the gap, if the slot
right after the head is not inside the region already. -/
private theorem clear_iff {q : Queue UInt8} {g : Region} (hl : 0 < g.length)
    (hg : g.start + g.length ≤ q.size + 1) {n : Nat} (hn : 0 < n) (hs : n ≤ q.size) :
    (∀ i, g.start ≤ i → i < g.start + g.length →
        ∀ k, k < n → i ≠ (q.head + 1 + k) % (q.size + 1)) ↔
      n ≤ gap q g ∧ gap q g + g.length ≤ q.size + 1 := by
  have hp := q.nextSlot_le
  have hk (k : Nat) : (q.head + 1 + k) % (q.size + 1) = (q.nextSlot + k) % (q.size + 1) := by
    rw [Queue.nextSlot, Nat.mod_add_mod]
  have hgap : gap q g = if q.nextSlot ≤ g.start then g.start - q.nextSlot
      else g.start + (q.size + 1) - q.nextSlot := by
    rw [gap, mod_eq_sub (by omega)]
    split <;> split <;> omega
  simp only [hk]
  constructor
  · intro h
    by_contra hc
    by_cases hin : q.nextSlot ≤ g.start
    · rw [if_pos hin] at hgap
      -- The message reaches the first slot of the region.
      apply h g.start (Nat.le_refl _) (by omega) (g.start - q.nextSlot) (by omega)
      rw [Nat.add_sub_cancel' hin, Nat.mod_eq_of_lt (by omega)]
    · rw [if_neg hin] at hgap
      by_cases hend : q.nextSlot < g.start + g.length
      · -- The slot after the head is inside the region.
        apply h q.nextSlot (by omega) hend 0 hn
        rw [Nat.add_zero, Nat.mod_eq_of_lt (by omega)]
      · apply h g.start (Nat.le_refl _) (by omega) (gap q g) (by omega)
        rw [hgap, Nat.add_sub_cancel' (by omega), Nat.add_mod_right, Nat.mod_eq_of_lt (by omega)]
  · rintro ⟨hle, hend⟩ i hi hi' k hkn he
    rw [mod_eq_sub (by omega)] at he
    split at hgap <;> split at he <;> omega

/-- As long as the pipe is not opened again, the tail is the last slot of the region in
flight. Then the gap is what the region leaves of the free space. -/
theorem gap_behind {q : Queue UInt8} (hq : q.WellFormed) {g : Region}
    (ht : g.start + g.length = q.tail + 1) (hl : 0 < g.length)
    (hc : g.length + q.count ≤ q.size + 1) : gap q g + g.length = q.space + 1 := by
  have htl := hq.tail_le
  have hd := Queue.tail_add_count hq
  have hh := hq.head_le
  have hcl := Queue.count_le hq
  have hp : q.nextSlot = if q.head < q.size then q.head + 1 else 0 := by
    rw [Queue.nextSlot, mod_eq_sub (by omega)]
    split <;> split <;> omega
  rw [Queue.space_eq hq, gap, hp, mod_eq_sub (by split <;> omega)]
  split <;> split <;> omega

namespace InPipe

/-- No step overwrites a byte of the region in flight. -/
def Undisturbed (p : InPipe) : InStep → Prop
  | .addMessage msg _ => ∀ t, p.transfer = some t →
      ∀ i, t.region.start ≤ i → i < t.region.start + t.region.length → ¬ Stores msg p.queue i
  | _ => True

/-- A message that fits into the free space ends before the region in flight, and the slot
after the head is not inside it. -/
def Separate (p : InPipe) : InStep → Prop
  | .addMessage msg _ => ∀ t, p.transfer = some t → msg.length + 1 ≤ p.queue.space →
      msg.length + 1 ≤ gap p.queue t.region ∧
        gap p.queue t.region + t.region.length ≤ p.queue.size + 1
  | _ => True

/-- A step overwrites nothing of the region exactly if it is separate from it. -/
theorem undisturbed_iff {p : InPipe} (h : p.Valid) (s : InStep) :
    p.Undisturbed s ↔ p.Separate s := by
  cases s with
  | addMessage msg ready =>
    simp only [Undisturbed, Separate, stores_iff h.wellFormed]
    refine forall_congr' fun t ↦ forall_congr' fun ht ↦ ?_
    obtain ⟨hl, hg⟩ := h.region t ht
    rw [← h.size] at hg
    have hsp := Queue.space_eq h.wellFormed
    by_cases hf : msg.length + 1 ≤ p.queue.space
    · rw [← clear_iff hl hg (Nat.succ_pos _) (by omega)]
      simp [hf]
    · simp [hf]
  | epInComplete => exact Iff.rfl
  | canIfOpen => exact Iff.rfl
  | fetch => exact Iff.rfl
  | drop => exact Iff.rfl

/-! ### One step -/

/-- A call that offers a region of a well-formed queue leaves a valid pipe. -/
theorem valid_initial (buffer : Nat → UInt8) : (initial buffer).Valid :=
  ⟨⟨Nat.zero_le _, Nat.zero_le _, (by decide : canifInDataSize + 1 < 4294967296)⟩, rfl,
    by simp [initial]⟩

private theorem valid_after {p : InPipe} (h : p.Valid) {q : Queue UInt8} (hq : q.WellFormed)
    (hs : q.size = canifInDataSize) (accept : Bool) :
    (p.after accept (canIfSendInData accept q)).Valid := by
  obtain ⟨hw, hsz, -⟩ := sendInData_wellFormed hq accept
  refine ⟨hw, hsz.trans hs, fun t ht ↦ ?_⟩
  cases accept with
  | false => exact h.region t ht
  | true =>
    simp only [after, if_true] at ht
    obtain ⟨g, hg, rfl⟩ := Option.map_eq_some_iff.mp ht
    by_cases hne : q.tail = q.head
    · rw [sendInData_empty hne] at hg
      contradiction
    · obtain ⟨g', hg', he⟩ := sendInData_spec hq hne
      rw [he] at hg
      cases hg
      exact ⟨hg'.length_pos, hs ▸ hg'.inside⟩

theorem addMessage_eq {p : InPipe} (h : p.Valid) (msg : List UInt8) (ready : Bool) :
    p.addMessage msg ready =
      if msg.length + 1 ≤ p.queue.space then
        p.after (p.accepts ready) (canIfSendInData (p.accepts ready) (appended p.queue msg))
      else p := by
  have hsp := Queue.space_eq h.wellFormed
  unfold addMessage
  split
  · next hf => rw [addMessage_fits h.wellFormed (by omega)]
  · next hf =>
    rw [addMessage_full h.wellFormed (by omega)]
    cases ha : p.accepts ready with
    | false => rfl
    | true =>
      have hn : p.transfer = none := by simpa [accepts] using (Bool.and_eq_true_iff.mp ha).2
      simp [after, ← hn]

theorem Valid.step {p : InPipe} (h : p.Valid) (s : InStep) : (p.step s).Valid := by
  have hq := h.wellFormed
  cases s with
  | addMessage msg ready =>
    change (p.addMessage msg ready).Valid
    rw [addMessage_eq h]
    split
    · exact valid_after h (hq.putAll _) ((Queue.size_putAll _ _).trans h.size) _
    · exact h
  | epInComplete ready =>
    change (p.epInComplete ready).Valid
    unfold epInComplete
    split
    · have hn : { p with transfer := none }.Valid := ⟨hq, h.size, nofun⟩
      exact valid_after hn hq h.size ready
    · exact h
  | canIfOpen => exact ⟨hq.reset, h.size, h.region⟩
  | fetch n =>
    refine ⟨hq, h.size, fun t ht ↦ ?_⟩
    obtain ⟨t', ht', rfl⟩ := Option.map_eq_some_iff.mp ht
    exact h.region t' ht'
  | drop => exact ⟨hq, h.size, nofun⟩

-- What is accepted is intact; what was in flight already is as intact as it was.
private theorem intact_after {p : InPipe} {q : Queue UInt8} (hq : q.WellFormed) (accept : Bool)
    (h : ∀ t, p.transfer = some t →
      t.region.bytes q.buffer = t.queued ∧ t.fetched <+: t.queued) :
    (p.after accept (canIfSendInData accept q)).Intact := by
  obtain ⟨-, -, hb⟩ := sendInData_wellFormed hq accept
  intro t ht
  cases accept with
  | false =>
    change t.region.bytes (canIfSendInData false q).2.buffer = _ ∧ _
    rw [hb]
    exact h t ht
  | true =>
    simp only [after, if_true] at ht
    obtain ⟨g, -, rfl⟩ := Option.map_eq_some_iff.mp ht
    exact ⟨rfl, List.nil_prefix⟩

/-- A step that is separate from the region in flight keeps it intact. -/
theorem Intact.step {p : InPipe} (hi : p.Intact) (h : p.Valid) {s : InStep}
    (hs : p.Separate s) : (p.step s).Intact := by
  have hq := h.wellFormed
  cases s with
  | addMessage msg ready =>
    change (p.addMessage msg ready).Intact
    rw [addMessage_eq h]
    split
    · next hf =>
      refine intact_after (hq.putAll _) _ fun t ht ↦ ⟨?_, (hi t ht).2⟩
      have hsp := Queue.space_eq hq
      rw [← (hi t ht).1]
      -- None of the slots the message is stored in is a slot of the region.
      refine cells_congr fun i hi ↦ Queue.buffer_putAll_of_ne hq _ fun k hk ↦ ?_
      obtain ⟨hl, hg⟩ := h.region t ht
      rw [← h.size] at hg
      exact (clear_iff hl hg (Nat.succ_pos _) (by omega)).mpr (hs t ht hf) _ (Nat.le_add_right _ _)
        (by omega) k hk
    · exact hi
  | epInComplete ready =>
    change (p.epInComplete ready).Intact
    unfold epInComplete
    split
    · exact intact_after hq ready (by simp)
    · exact hi
  | canIfOpen => exact hi
  | fetch n =>
    intro t ht
    obtain ⟨t', ht', rfl⟩ := Option.map_eq_some_iff.mp ht
    obtain ⟨hb, f, hf⟩ := hi t' ht'
    refine ⟨hb, ?_⟩
    change t'.fetched ++ ((t'.region.bytes p.queue.buffer).drop t'.fetched.length).take n <+:
      t'.queued
    rw [hb, ← hf, List.drop_left]
    exact (List.prefix_append_right_inj _).mpr (List.take_prefix _ _)
  | drop => exact nofun

/-! ### Runs -/

/-- No byte of a region in flight is overwritten in a run exactly if every message that is
taken ends before the region; and then the region holds, and the host fetches, what was
queued. -/
theorem canIfIn_lifetime (buffer : Nat → UInt8) (steps : List InStep) :
    (Along Undisturbed (initial buffer) steps ↔ Along Separate (initial buffer) steps) ∧
      (Along Separate (initial buffer) steps → ((initial buffer).run steps).Intact) := by
  have hv := valid_initial buffer
  have hi : (initial buffer).Intact := by simp [Intact, initial]
  generalize initial buffer = p at hv hi
  induction steps generalizing p with
  | nil => exact ⟨Iff.rfl, fun _ ↦ hi⟩
  | cons s steps ih =>
    have hs := undisturbed_iff hv s
    refine ⟨?_, fun ⟨h, h'⟩ ↦ (ih _ (hv.step s) (hi.step hv h)).2 h'⟩
    constructor
    · rintro ⟨h, h'⟩
      exact ⟨hs.mp h, (ih _ (hv.step s) (hi.step hv (hs.mp h))).1.mp h'⟩
    · rintro ⟨h, h'⟩
      exact ⟨hs.mpr h, (ih _ (hv.step s) (hi.step hv h)).1.mpr h'⟩

/-- An acknowledgement goes out, eighteen extended frames with eight bytes are received
before the host fetches it, and two more acknowledgements follow. -/
def flood : List InStep :=
  .addMessage [0x80] true :: List.replicate 18 (.addMessage (0x04 :: List.replicate 12 0) true) ++
    List.replicate 2 (.addMessage [0x80] true)

/-- The last acknowledgement wraps around and overwrites the length byte of the first. -/
theorem canIfIn_overwritten :
    ¬ ∀ buffer steps, Along Undisturbed (initial buffer) steps ∧
      ((initial buffer).run steps).Intact := by
  intro h
  have hi := (h (fun _ ↦ 0) flood).2 ⟨⟨1, 2⟩, [2, 0x80], []⟩ (by decide +kernel)
  have hb : Region.bytes ⟨1, 2⟩ ((initial fun _ ↦ 0).run flood).queue.buffer = [0x80, 0x80] := by
    decide +kernel
  exact absurd (hb.symm.trans hi.1) (by decide)

end InPipe

end CanDybug
