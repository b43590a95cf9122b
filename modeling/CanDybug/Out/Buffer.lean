import CanDybug.Base.Monitor
import CanDybug.Out.Space

/-!
# The OUT buffer

What is said about the OUT buffer in every run is proved in one way: by an assertion that the
operations of other handlers leave alone, and an invariant of the loop of
`CanIf_EpOutComplete`. Stated here: that all indices stay inside the buffer, that the loop
consumes what is left of the data in each round and ends, and when a transfer is requested for
which the buffer has no room.
-/

namespace CanDybug

open Base

/-! ### Runs, by an invariant of the loop -/

/-- Operations other than those of `CanIf_EpOutComplete` and `CanIf_ReceiveOutData`. -/
def Op.outside : Op → Bool
  | deliver _ | sentinel _ | handleRequest _ _ | stop | moveFragment _ _ | receiveOutData
  | usbReceive _ => false
  | _ => true

section OutBuffer

variable {I : Assertion State Op} {L : Nat → Nat → Assertion State Op}
  (others : ∀ o : Op, o.outside = true → ∀ s t, Sound s → I s t →
    I (s.exec o) (t ++ [(o, s)]))
  (reset : ∀ s t, I s t → I (s.exec .resetCan) [])
  (receive : Triple (fun s t ↦ I s t ∧ SoundLog s t) canIfReceiveOutData fun _ ↦ I)
  (start : ∀ bytes g s t, SoundLog s t → I s t → s.armed = some g → bytes.length ≤ g.length →
    L (g.start - s.canIfOut.offset) (bytes.length + s.canIfOut.offset) (loopStart s bytes g)
      (t ++ loopEntries s bytes g))
  (accept : ∀ pbuf length s t, Round pbuf length s t → L pbuf length s t →
    ∀ n, n = (s.canIfOut.buffer pbuf).toNat → n ≤ length → n ≠ 0 →
    s.accepts (pbuf + 1) (n - 1) = true →
    L (pbuf + n) (length - n) (s.exec (.handleRequest (pbuf + 1) (n - 1)))
      (t ++ [(.handleRequest (pbuf + 1) (n - 1), s)]))
  (reject : ∀ pbuf length s t, Round pbuf length s t → L pbuf length s t →
    ∀ n, n = (s.canIfOut.buffer pbuf).toNat → n ≤ length → n ≠ 0 →
    s.accepts (pbuf + 1) (n - 1) = false →
    ∀ s', s' = s.exec (.handleRequest (pbuf + 1) (n - 1)) →
    I (s'.exec .stop) (t ++ [(.handleRequest (pbuf + 1) (n - 1), s)] ++ [(.stop, s')]))
  (zero : ∀ pbuf length s t, Round pbuf length s t → L pbuf length s t → length ≠ 0 →
    (s.canIfOut.buffer pbuf).toNat = 0 → I (s.exec .stop) (t ++ [(.stop, s)]))
  (done : ∀ pbuf length s t, Round pbuf length s t → L pbuf length s t →
    length < (s.canIfOut.buffer pbuf).toNat →
    I (s.exec (.moveFragment pbuf length)) (t ++ [(.moveFragment pbuf length, s)]))

include others reset receive start accept reject zero done

/-- An assertion that the other handlers keep, and that the loop leads back to, holds in every
run. -/
theorem outBuffer_run {c : Config} (hc : I c.state c.trace ∧ SoundLog c.state c.trace)
    (steps : List Step) : I (run c steps).state (run c steps).trace := by
  have op {o : Op} (ho : o.outside = true) (hp : o.plain = true) :
      OpKeeps device (fun s t ↦ I s t ∧ SoundLog s t) o :=
    fun s t h ↦ ⟨others o ho s t h.2.1 h.1, SoundLog.plain hp s t h.2⟩
  have stable : Stable device fun s t ↦ I s t ∧ SoundLog s t := fun e ↦ op rfl rfl
  have receive := keeps_and receive soundLog_receive
  have post : Keeps (fun s t ↦ I s t ∧ SoundLog s t) canPostFrames :=
    keeps_canPostFrames (keeps_postOne stable (op rfl rfl)
      (fun m s t h he ↦ ⟨others (.postFrame m) rfl s t h.2.1 h.1, h.2.1.postFrame he m,
        h.2.2.concat trivial⟩) fun m ↦ op rfl rfl)
  have kept : Kept fun s t ↦ I s t ∧ SoundLog s t := {
    stable
    tsr := op rfl rfl
    rfr := op rfl rfl
    fifo := op rfl rfl
    esr := op rfl rfl
    message := fun _ _ ↦ op rfl rfl
    release := op rfl rfl
    completion := op rfl rfl
    out := fun bytes ↦ outCompletion_rule (fun _ _ h ↦ h) (start bytes) accept reject zero done
      (keeps_bind post fun _ ↦ receive)
    sent := keeps_canFrameSent (keeps_scanMailbox stable (fun _ _ ↦ op rfl rfl)
      (fun _ ↦ op rfl rfl) fun _ ↦ op rfl rfl) post receive
    error := keeps_canBusError stable (op rfl rfl) (fun _ _ ↦ op rfl rfl) (op rfl rfl)
      (fun _ ↦ op rfl rfl) fun s t h ↦
        ⟨others .resetTxQ rfl s t h.2.1 h.1, h.2.1.reset rfl rfl rfl, h.2.2.concat trivial⟩ }
  have reset (s : State) (t : Log) (h : I s t ∧ SoundLog s t) :
      I (s.exec .resetCan) [] ∧ SoundLog (s.exec .resetCan) [] :=
    ⟨reset s t h.1, soundLog_reset s t h.2⟩
  refine (kept.run (fun b i ↦ ?_) (fun d ↦ ?_) hc steps).1
  · exact keeps_canIfOpen stable reset
      (fun s t h ↦ ⟨others .canStart rfl s t h.2.1 h.1, soundLog_canStart s t h.2⟩)
      (fun s t h ↦ ⟨others .emptyBuffers rfl s t h.2.1 h.1, soundLog_emptyBuffers s t h.2⟩)
      receive b i
  · exact keeps_canClose stable reset
      (fun s t h ↦ ⟨others .dropTransfers rfl s t h.2.1 h.1, soundLog_dropTransfers s t h.2⟩) d

end OutBuffer

/-! ### Indices and rounds -/

/-- Where the loop of `CanIf_EpOutComplete` stands, and where its sentinel is. -/
structure Cursor where
  pbuf : Nat
  length : Nat
  last : Nat

/-- `pbuf` and `length` from the rewinding on; an accepted message moves them. -/
def cursor : Monitor State Op Cursor where
  start := ⟨0, 0, 0⟩
  next b e :=
    match e.1 with
    | .deliver bytes =>
      match e.2.armed with
      | some g => { b with
          pbuf := g.start - e.2.canIfOut.offset
          length := bytes.length + e.2.canIfOut.offset }
      | none => b
    | .sentinel i => { b with last := i }
    | .handleRequest msg length =>
      if e.2.accepts msg length then
        { b with pbuf := b.pbuf + (length + 1), length := b.length - (length + 1) }
      else b
    | _ => b

/-- The offset and the region armed stay inside the buffer. -/
structure Inside (s : State) : Prop where
  offset : s.canIfOut.offset ≤ canifOutDataSize
  armed : ∀ g, s.armed = some g → g.start + g.length ≤ canifOutDataSize

/-- What an operation may do. A transfer that completes was armed at the offset or behind it,
so `pbuf` is not rewound past the buffer. The sentinel stands right behind the data; a request
is handled where the loop stands and consumes no more than is left before the sentinel, which
is still there; and the fragment is what is left. -/
def InBounds (b : Cursor) (e : Op × State) : Prop :=
  Inside e.2 ∧
    match e.1 with
    | .deliver bytes => ∃ g, e.2.armed = some g ∧ e.2.canIfOut.offset ≤ g.start ∧
        bytes.length ≤ g.length
    | .sentinel i => i = b.pbuf + b.length ∧ i ≤ canifOutDataSize
    | .handleRequest msg length => msg = b.pbuf + 1 ∧
        length + 1 = (e.2.canIfOut.buffer b.pbuf).toNat ∧ length + 1 ≤ b.length ∧
        b.pbuf + b.length = b.last ∧ e.2.canIfOut.buffer b.last = 1
    | .moveFragment pbuf length => pbuf = b.pbuf ∧ length = b.length ∧
        pbuf + length = b.last ∧ length < (e.2.canIfOut.buffer pbuf).toNat
    | .usbReceive g => g.start + g.length ≤ canifOutDataSize
    | _ => True

theorem Sound.inside {s : State} (h : Sound s) : Inside s :=
  ⟨h.offset_le, fun g hg ↦ (h.armed g hg).2.1⟩

/-- The log up to the loop. -/
private def Bounded (_ : State) (t : Log) : Prop := cursor.Along InBounds t

/-- The log of the loop, which stands at `pbuf` with `length` bytes left. -/
private def BoundedAt (pbuf length : Nat) (_ : State) (t : Log) : Prop :=
  cursor.Along InBounds t ∧ cursor.after t = ⟨pbuf, length, pbuf + length⟩

private theorem bounded_concat {s s' : State} {t : Log} (h : cursor.Along InBounds t) {o : Op}
    (ho : InBounds (cursor.after t) (o, s)) : Bounded s' (t ++ [(o, s)]) :=
  (Monitor.along_concat t _).mpr ⟨h, ho⟩

private theorem bounded_others {o : Op} (ho : o.outside = true) (s : State) (t : Log)
    (hs : Sound s) (h : Bounded s t) : Bounded (s.exec o) (t ++ [(o, s)]) := by
  refine bounded_concat h ⟨hs.inside, ?_⟩
  cases o <;> trivial

private theorem bounded_receive :
    Triple (fun s t ↦ Bounded s t ∧ SoundLog s t) canIfReceiveOutData fun _ ↦ Bounded := by
  have step {o : Op} (hp : o.plain = true)
      (ho : ∀ b s, Sound s → InBounds b (o, s)) :
      OpKeeps device (fun s t ↦ Bounded s t ∧ SoundLog s t) o :=
    fun s t h ↦ ⟨bounded_concat h.1 (ho _ s h.2.1), SoundLog.plain hp s t h.2⟩
  have hs : Stable device fun s t ↦ Bounded s t ∧ SoundLog s t :=
    fun _ ↦ step rfl fun _ _ h ↦ ⟨h.inside, trivial⟩
  have tested : OpKeeps device (fun s t ↦ Bounded s t ∧ SoundLog s t) .receiveOutData :=
    step rfl fun _ _ h ↦ ⟨h.inside, trivial⟩
  refine canIfReceiveOutData_rule hs hs (fun s t h _ ↦ (tested s t h).1)
    (fun s t h _ ↦ tested s t h) ?_
  rintro s t ⟨h, hsound⟩ g rfl
  have hle := hsound.1.offset_le
  refine bounded_concat h ⟨hsound.1.inside, ?_⟩
  unfold canifOutDataSize at *
  simp only [sub32_of_le hle (by omega), u16_of_lt (show 128 - s.canIfOut.offset < 65536 by omega)]
  omega

private theorem boundedAt_start (bytes : List UInt8) (g : Region) (s : State) (t : Log)
    (hs : SoundLog s t) (h : Bounded s t) (hg : s.armed = some g)
    (hb : bytes.length ≤ g.length) :
    BoundedAt (g.start - s.canIfOut.offset) (bytes.length + s.canIfOut.offset)
      (loopStart s bytes g) (t ++ loopEntries s bytes g) := by
  obtain ⟨ho, hl, -⟩ := hs.1.armed g hg
  have hle := hs.1.offset_le
  have hstart : s.canIfOut.offset ≤ g.start := by omega
  have hd : Inside (s.exec (.deliver bytes)) := by
    rw [exec_deliver hg]
    exact ⟨hle, nofun⟩
  have hafter : cursor.after (t ++ [(.deliver bytes, s)]) =
      ⟨g.start - s.canIfOut.offset, bytes.length + s.canIfOut.offset, (cursor.after t).last⟩ := by
    rw [Monitor.after_concat]
    simp only [cursor, hg]
  have hdeliver : Bounded (s.exec (.deliver bytes)) (t ++ [(.deliver bytes, s)]) :=
    bounded_concat h ⟨hs.1.inside, g, hg, hstart, hb⟩
  have hsentinel : InBounds (cursor.after (t ++ [(.deliver bytes, s)]))
      (.sentinel (g.start - s.canIfOut.offset + (bytes.length + s.canIfOut.offset)),
        s.exec (.deliver bytes)) := by
    rw [hafter]
    exact ⟨hd, rfl, by omega⟩
  rw [loopEntries, List.append_cons]
  refine ⟨(Monitor.along_concat _ _).mpr ⟨hdeliver, hsentinel⟩, ?_⟩
  rw [Monitor.after_concat, hafter]
  rfl

private theorem boundedAt_request {pbuf length : Nat} {s : State} {t : Log}
    (hr : Round pbuf length s t) (h : BoundedAt pbuf length s t) {n : Nat}
    (hn : n = (s.canIfOut.buffer pbuf).toNat) (hle : n ≤ length) (h0 : n ≠ 0) :
    cursor.Along InBounds (t ++ [(.handleRequest (pbuf + 1) (n - 1), s)]) := by
  have h1 : n - 1 + 1 = n := Nat.sub_add_cancel (Nat.pos_of_ne_zero h0)
  refine (Monitor.along_concat t _).mpr ⟨h.1, hr.sound.1.inside, ?_⟩
  rw [h.2]
  exact ⟨rfl, h1.trans hn, h1.trans_le hle, rfl, hr.sentinel⟩

/-- With more fuel than bytes the loop does not depend on how much it is: it has ended. -/
theorem outLoop_fuel (fuel pbuf length : Nat) (h : length < fuel) :
    outLoop fuel pbuf length = outLoop (length + 1) pbuf length := by
  induction fuel using Nat.strongRecOn generalizing pbuf length with
  | ind fuel ih =>
    cases fuel with
    | zero => omega
    | succ fuel =>
      unfold outLoop
      refine bind_congr fun n ↦ ?_
      split
      · split
        · rfl
        · refine bind_congr fun ok ↦ ?_
          split
          · by_cases hl : fuel = length
            · rw [hl]
            · rw [ih fuel (by omega) _ _ (by omega), ih length (by omega) _ _ (by omega)]
          · rfl
      · rfl

/-- In every run: the offset, the armed region and every index that `CanIf_EpOutComplete` uses
stay inside the buffer; each round of its loop consumes bytes that are left before the
sentinel; and the loop ends whatever the bytes are. -/
theorem canIfOut_inBounds (mailboxes : Fin 3 → TxMailBox) (txq : Nat → TxMailBox)
    (inb outb : Nat → UInt8) (steps : List Step) :
    Inside (run (boot mailboxes txq inb outb) steps).state ∧
      cursor.Along InBounds (run (boot mailboxes txq inb outb) steps).trace ∧
      ∀ fuel pbuf length, length < fuel →
        outLoop fuel pbuf length = outLoop (length + 1) pbuf length := by
  refine ⟨(soundLog_run mailboxes txq inb outb steps).1.inside, ?_, outLoop_fuel⟩
  refine outBuffer_run (I := Bounded) (L := BoundedAt) (c := boot mailboxes txq inb outb)
    (fun o ho ↦ bounded_others ho) (fun _ _ _ ↦ Monitor.along_nil) bounded_receive boundedAt_start
    ?_ ?_ ?_ ?_ ⟨Monitor.along_nil, soundLog_boot mailboxes txq inb outb⟩ steps
  · intro pbuf length s t hr h n hn hle h0 ha
    refine ⟨boundedAt_request hr h hn hle h0, ?_⟩
    rw [Monitor.after_concat, h.2]
    simp only [cursor, ha, if_true, Nat.sub_add_cancel (Nat.pos_of_ne_zero h0), Cursor.mk.injEq,
      true_and]
    omega
  · rintro pbuf length s t hr h n hn hle h0 - s' rfl
    have hin := hr.sound.1.inside
    exact bounded_concat (boundedAt_request hr h hn hle h0) ⟨⟨hin.offset, hin.armed⟩, trivial⟩
  · intro pbuf length s t hr h _ _
    exact bounded_concat h.1 ⟨hr.sound.1.inside, trivial⟩
  · intro pbuf length s t hr h hlt
    refine bounded_concat h.1 ⟨hr.sound.1.inside, ?_⟩
    rw [h.2]
    exact ⟨rfl, rfl, rfl, hlt⟩

/-! ### Requests without room -/

/-- A transfer is requested for at least one byte. -/
def Progresses (e : Op × State) : Prop :=
  match e.1 with
  | .usbReceive g => 0 < g.length
  | _ => True

instance decidableProgresses : (e : Op × State) → Decidable (Progresses e)
  | (.usbReceive g, _) => inferInstanceAs (Decidable (0 < g.length))
  | (.event _, _) | (.read _, _) | (.resetCan, _) | (.canStart, _) | (.emptyBuffers, _)
  | (.dropTransfers, _) | (.deliver _, _) | (.sentinel _, _) | (.handleRequest _ _, _)
  | (.stop, _) | (.moveFragment _ _, _) | (.receiveOutData, _) | (.postFrame _, _)
  | (.setTXRQ _, _) | (.clearRQCP _, _) | (.setABRQ _, _) | (.clearERRI, _)
  | (.releaseFifo, _) | (.resetTxQ, _) | (.addMessage _, _) | (.epInComplete, _) =>
    .isTrue trivial

/-- The data of the last transfer since the buffer was emptied. -/
def lastData : Monitor State Op (Option (List UInt8)) where
  start := none
  next b e :=
    match e.1 with
    | .deliver bytes => some (e.2.data bytes)
    | .emptyBuffers => none
    | _ => b

/-- Data that ends with as many bytes as the buffer holds, of a message announced to have more. -/
def Outgrows (data : List UInt8) : Prop :=
  ∃ b rest, (dataPipe.scan data).2 = .fragment (b :: rest) ∧
    rest.length + 1 = canifOutDataSize ∧ canifOutDataSize < b.toNat

/-- Where reception goes on, the last data (before the first transfer: what is in the buffer)
left room for the message that it ended inside of. -/
def HasRoom (b : Option (List UInt8)) (e : Op × State) : Prop :=
  e.1 = .receiveOutData → e.2.accepting = true → ¬ Outgrows (b.getD (e.2.data []))

/-- The buffer holds the message that the last data ended inside of, or nothing after one that
was not valid. -/
private def Carried (b : Option (List UInt8)) (s : State) : Prop :=
  match (dataPipe.scan (b.getD (s.data []))).2 with
  | .fragment r => s.data [] = r
  | .invalid => s.canIfOut.offset = 0

private theorem Carried.congr {b : Option (List UInt8)} {s s' : State} (h : Carried b s)
    (hs : s'.canIfOut = s.canIfOut) : Carried b s' := by
  unfold Carried State.data
  rw [hs]
  exact h

private theorem carried_empty {s : State} (h : s.canIfOut.offset = 0) : Carried none s := by
  have hd : s.data [] = [] := by
    rw [State.data, h]
    rfl
  rw [Carried, Option.getD_none, hd, dataPipe.scan_nil]

/-- What the buffer holds ends inside a message, if anything. -/
private theorem Carried.forget {b : Option (List UInt8)} {s : State} (h : Carried b s) :
    Carried none s := by
  rw [Carried] at h
  split at h
  · next r hr =>
    rw [Carried, Option.getD_none, h, dataPipe.scan_fragment hr]
  · exact carried_empty h

/-- Then the buffer is full exactly if the last data has outgrown it. -/
private theorem Carried.outgrows_iff {b : Option (List UInt8)} {s : State} (h : Carried b s) :
    Outgrows (b.getD (s.data [])) ↔ s.canIfOut.offset = canifOutDataSize := by
  have hlen : (s.data []).length = s.canIfOut.offset := by
    rw [State.data, List.append_nil, length_cells]
  rw [Carried] at h
  constructor
  · rintro ⟨x, rest, hr, hl, -⟩
    rw [hr] at h
    rw [← hlen, h, List.length_cons, hl]
  · intro ho
    split at h
    · next r hr =>
      rw [h, ho] at hlen
      obtain ⟨x, rest, rfl⟩ := List.exists_cons_of_length_eq_add_one (n := 127) hlen
      exact ⟨x, rest, hr, hlen, hlen ▸ dataPipe.fragment_short hr⟩
    · rw [h] at ho
      contradiction

/-- The operations of `CanIf_ReceiveOutData`. -/
def Op.receives : Op → Bool
  | receiveOutData | usbReceive _ => true
  | _ => false

private theorem hasRoom_other {o : Op} (ho : (o == .receiveOutData) = false)
    {b : Option (List UInt8)} {s : State} : HasRoom b (o, s) := by
  rintro rfl
  contradiction

/-- Transfers have been requested for at least one byte exactly if there was room. -/
private def Roomy (t : Log) : Prop := (∀ e ∈ t, Progresses e) ↔ lastData.Along HasRoom t

private theorem Roomy.concat {t : Log} (h : Roomy t) {e : Op × State}
    (he : Progresses e ↔ HasRoom (lastData.after t) e) : Roomy (t ++ [e]) := by
  rw [Roomy] at h ⊢
  rw [Monitor.along_concat, List.forall_mem_append, List.forall_mem_singleton, h, he]

private theorem Roomy.other {t : Log} (h : Roomy t) {o : Op} (ho : o.receives = false)
    (s : State) : Roomy (t ++ [(o, s)]) := by
  refine h.concat (iff_of_true ?_ (hasRoom_other ?_))
  · cases o <;> trivial
  · cases o <;> first | rfl | contradiction

/-- With what the buffer holds between handlers. -/
private def RoomyLog (s : State) (t : Log) : Prop := Carried (lastData.after t) s ∧ Roomy t

/-- In the loop: what is left ends as the data of the transfer does. -/
private def RoomyAt (pbuf length : Nat) (s : State) (t : Log) : Prop :=
  (∃ data, lastData.after t = some data ∧
    (dataPipe.scan data).2 = (dataPipe.scan (cells s.canIfOut.buffer pbuf length)).2) ∧ Roomy t

/-- From the condition found to hold until the request, which asks for the rest of the buffer. -/
private def RoomyTested (s : State) (t : Log) : Prop :=
  Carried (lastData.after t) s ∧
    (lastData.Along HasRoom t ↔
      (∀ e ∈ t, Progresses e) ∧ s.canIfOut.offset ≠ canifOutDataSize)

private theorem carried_outside {o : Op} (ho : o.outside = true) {s : State} {t : Log}
    (h : Carried (lastData.after t) s) :
    Carried (lastData.after (t ++ [(o, s)])) (s.exec o) := by
  rw [Monitor.after_concat]
  cases o with
  | event e => exact h.congr (s.exec_event e).2.1
  | emptyBuffers => exact carried_empty rfl
  | deliver | sentinel | handleRequest | stop | moveFragment | receiveOutData | usbReceive =>
    contradiction
  | _ => exact h.congr rfl

private theorem progresses_rest {s : State} (hle : s.canIfOut.offset ≤ canifOutDataSize) :
    Progresses (.usbReceive ⟨s.canIfOut.offset,
        u16 (sub32 canifOutDataSize s.canIfOut.offset)⟩, s) ↔
      s.canIfOut.offset ≠ canifOutDataSize := by
  simp only [Progresses]
  unfold canifOutDataSize at *
  rw [sub32_of_le hle (by omega), u16_of_lt (by omega)]
  omega

private theorem roomyTested_stable : Stable device fun s t ↦ RoomyTested s t ∧ SoundLog s t := by
  intro e s t h
  refine ⟨⟨carried_outside rfl h.1.1, ?_⟩, SoundLog.plain rfl s t h.2⟩
  have hprog : Progresses (device.env e, s) := trivial
  have hroom : HasRoom (lastData.after t) (device.env e, s) := hasRoom_other rfl
  rw [Monitor.along_concat, List.forall_mem_append, List.forall_mem_singleton,
    and_iff_left hprog, and_iff_left hroom,
    show (device.exec (device.env e) s).canIfOut = s.canIfOut from (s.exec_event e).2.1]
  exact h.1.2

private theorem roomy_receive :
    Triple (fun s t ↦ RoomyLog s t ∧ SoundLog s t) canIfReceiveOutData fun _ ↦ RoomyLog := by
  have hs : Stable device fun s t ↦ RoomyLog s t ∧ SoundLog s t := fun e s t h ↦
    ⟨⟨carried_outside rfl h.1.1,
      h.1.2.other (o := device.env e) rfl s⟩,
      SoundLog.plain rfl s t h.2⟩
  apply canIfReceiveOutData_rule hs roomyTested_stable
  · rintro s t ⟨⟨h, hr⟩, -⟩ hgo
    refine ⟨?_, hr.concat (iff_of_true trivial fun _ ha ↦ ?_)⟩
    · rw [Monitor.after_concat]
      exact h.congr rfl
    · rw [show s.accepting = false from hgo] at ha
      contradiction
  · rintro s t ⟨⟨h, hr⟩, hsound⟩ hgo
    refine ⟨⟨?_, ?_⟩, SoundLog.plain (o := .receiveOutData) rfl s t hsound⟩
    · rw [Monitor.after_concat]
      exact h.congr rfl
    · have hroom : HasRoom (lastData.after t) (.receiveOutData, s) ↔
          s.canIfOut.offset ≠ canifOutDataSize := by
        rw [Ne, ← h.outgrows_iff]
        exact ⟨fun hr ↦ hr rfl hgo, fun hr _ _ ↦ hr⟩
      have htrue : Progresses (.receiveOutData, s) := trivial
      rw [Monitor.along_concat, List.forall_mem_append, List.forall_mem_singleton, hroom,
        and_iff_left htrue]
      exact and_congr_left' hr.symm
  · rintro s t ⟨⟨h, hr⟩, hsound⟩ g rfl
    refine ⟨?_, ?_⟩
    · rw [Monitor.after_concat]
      exact h.congr rfl
    · have hg := progresses_rest hsound.1.offset_le
      have hroom : HasRoom (lastData.after t) (.usbReceive ⟨s.canIfOut.offset,
          u16 (sub32 canifOutDataSize s.canIfOut.offset)⟩, s) := hasRoom_other rfl
      rw [Roomy, Monitor.along_concat, List.forall_mem_append, List.forall_mem_singleton, hg,
        and_iff_left hroom]
      exact hr.symm

/-- In every run, and since the last `CanIf_Open` or `Can_Close`: every transfer is requested
for at least one byte exactly if, where reception goes on, the data of the last transfer (the
fragment it was armed behind, and the bytes that arrived) does not end with 128 bytes of a
message announced to have more. -/
theorem usbReceive_progresses (mailboxes : Fin 3 → TxMailBox) (txq : Nat → TxMailBox)
    (inb outb : Nat → UInt8) (steps : List Step) :
    (∀ e ∈ (run (boot mailboxes txq inb outb) steps).trace, Progresses e) ↔
      lastData.Along HasRoom (run (boot mailboxes txq inb outb) steps).trace := by
  have nil : Roomy [] := by simp [Roomy]
  refine (outBuffer_run (I := RoomyLog) (L := RoomyAt) (c := boot mailboxes txq inb outb)
    ?_ (fun _ _ h ↦ ⟨h.1.forget.congr rfl, nil⟩) roomy_receive ?_ ?_ ?_ ?_ ?_
    ⟨⟨carried_empty rfl, nil⟩, soundLog_boot mailboxes txq inb outb⟩ steps).2
  · intro o ho s t _ h
    refine ⟨carried_outside ho h.1, h.2.other ?_ s⟩
    cases o <;> first | rfl | contradiction
  · intro bytes g s t hs h hg _
    rw [loopEntries, List.append_cons]
    refine ⟨⟨s.data bytes, ?_, ?_⟩, (h.2.other rfl s).other rfl _⟩
    · rw [Monitor.after_concat, Monitor.after_concat]
      rfl
    · rw [cells_loopStart hs.1 hg]
  · rintro pbuf length s t hr ⟨⟨data, hd, hscan⟩, h⟩ n he hn h0 ha
    obtain ⟨f, -, hrow, -⟩ := accepted_spec hr.sound.1.queue ha
    rw [scan_cells_some he hn h0 hrow] at hscan
    exact ⟨⟨data, by rw [Monitor.after_concat]; exact hd, hscan⟩, h.other rfl s⟩
  · rintro pbuf length s t hr ⟨⟨data, hd, hscan⟩, h⟩ n he hn h0 ha s' rfl
    rw [scan_cells_none he hn h0 (rejected_spec hr.sound.1.queue ha).1] at hscan
    refine ⟨?_, (h.other rfl s).other rfl _⟩
    rw [Monitor.after_concat, Monitor.after_concat]
    change Carried (lastData.after t) _
    rw [hd, Carried, Option.getD_some, hscan]
    rfl
  · rintro pbuf length s t _ ⟨⟨data, hd, hscan⟩, h⟩ hl h0
    rw [scan_cells_zero rfl hl h0] at hscan
    refine ⟨?_, h.other rfl s⟩
    rw [Monitor.after_concat]
    change Carried (lastData.after t) _
    rw [hd, Carried, Option.getD_some, hscan]
    rfl
  · rintro pbuf length s t _ ⟨⟨data, hd, hscan⟩, h⟩ hlt
    rw [scan_cells_short rfl hlt] at hscan
    refine ⟨?_, h.other rfl s⟩
    rw [Monitor.after_concat]
    change Carried (lastData.after t) _
    rw [hd, Carried, Option.getD_some, hscan]
    change cells (copy s.canIfOut.buffer 0 pbuf length) 0 length ++ [] = _
    rw [List.append_nil, cells_copy _ _ (Nat.zero_le _)]

/-- A message announced with 200 bytes, of which the first 128 arrive. -/
def announcedTooLong : List Step :=
  [⟨.canIfOpen true true, []⟩, ⟨.epOutComplete (200 :: List.replicate 127 0), []⟩]

/-- The fragment fills the buffer, and the next transfer is requested for no byte. -/
theorem usbReceive_stalls :
    ¬ ∀ mailboxes txq inb outb steps,
      ∀ e ∈ (run (boot mailboxes txq inb outb) steps).trace, Progresses e := by
  intro h
  have hn := h (fun _ ↦ ⟨0, 0, 0, 0⟩) (fun _ ↦ ⟨0, 0, 0, 0⟩) (fun _ ↦ 0) (fun _ ↦ 0)
    announcedTooLong
  revert hn
  decide +kernel

end CanDybug
