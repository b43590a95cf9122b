import CanDybug.Device.Log
import CanDybug.Out.Space

/-!
# Received frames and queued frames

`Can_FrameReceived` and `CanIf_EpOutComplete` are written independently. The packet of a
received frame, fed back, queues a mailbox with the registers that the frame was received
in; and a queued mailbox, read as a received frame, gives the request's bytes with the
identifier reduced to its width.
-/

namespace CanDybug

open Base

/-! ### The packet of a received frame -/

private theorem ir_standard (id : BitVec 11) (p : Payload) :
    (Frame.mk (.standard id) p).ir &&& canIdtypeExtData = 0 ∧
      ((Frame.mk (.standard id) p).ir >>> 21).setWidth 11 = id := by
  cases p <;>
  · refine ⟨?_, ?_⟩ <;>
    · apply BitVec.eq_of_getLsbD_eq
      intro i hi
      simp only [Frame.ir, Frame.type, word, canIdtypeExtData, BitVec.getLsbD_and,
        BitVec.getLsbD_or, BitVec.getLsbD_shiftLeft, BitVec.getLsbD_setWidth,
        BitVec.getLsbD_ushiftRight]
      interval_cases i <;> simp [canifFrameSdat, canifFrameSrtr]

private theorem ir_extended (id : BitVec 29) (p : Payload) :
    (Frame.mk (.extended id) p).ir &&& canIdtypeExtData ≠ 0 ∧
      ((Frame.mk (.extended id) p).ir >>> 3).setWidth 29 = id := by
  cases p <;>
  · refine ⟨fun h ↦ ?_, ?_⟩
    · have hb := congrArg (fun v ↦ v.getLsbD 2) h
      simp [Frame.ir, Frame.type, word, canIdtypeExtData, canifFrameEdat, canifFrameErtr] at hb
    · apply BitVec.eq_of_getLsbD_eq
      intro i hi
      simp only [Frame.ir, Frame.type, word, BitVec.getLsbD_or, BitVec.getLsbD_shiftLeft,
        BitVec.getLsbD_setWidth, BitVec.getLsbD_ushiftRight]
      interval_cases i <;> simp [canifFrameEdat, canifFrameErtr]

/-- Registers that hold a frame stand for that frame. -/
theorem RxMailBox.Holds.frame {rx : RxMailBox} {f : Frame} (h : rx.Holds f) :
    ∃ le, rx.frame le = f := by
  have le : dlc rx.RDTR ≤ 8 := h.rdtr ▸ f.length_data_le
  refine ⟨le, ?_⟩
  have hr := ir_and_rtr f
  obtain ⟨hrir, hrdtr, hdata⟩ := h
  obtain ⟨id, payload⟩ := f
  unfold RxMailBox.frame
  rw [hrir]
  congr 1
  · cases id with
    | standard id => rw [if_pos (ir_standard id payload).1, (ir_standard id payload).2]
    | extended id => rw [if_neg (ir_extended id payload).1, (ir_extended id payload).2]
  · cases payload with
    | data bytes le' =>
      rw [if_pos (hr.mpr nofun)]
      congr 1
      rw [hrdtr]
      exact hdata
    | remote => rw [if_neg (fun h ↦ hr.mp h rfl)]

/-- What `Can_FrameReceived` passes on for a frame is the body of its packet. -/
theorem RxMailBox.Holds.receivedMsg {rx : RxMailBox} {f : Frame} (h : rx.Holds f)
    (stack : Nat → UInt8) : CanDybug.receivedMsg stack rx = f.body := by
  obtain ⟨le, hf⟩ := h.frame
  rw [receivedMsg_eq rx stack le, hf]
  intro hr
  have hp : f.payload = .remote := by
    by_contra hp
    exact hr (h.rir ▸ (ir_and_rtr f).mpr hp)
  rw [h.rdtr, Frame.data, hp]
  rfl

theorem RxMailBox.Holds.receivedPacket {rx : RxMailBox} {f : Frame} (h : rx.Holds f)
    (stack : Nat → UInt8) : CanDybug.receivedPacket stack rx = f.packet := by
  rw [CanDybug.receivedPacket, h.receivedMsg]
  rfl

/-! ### Feeding a packet to `CanIf_EpOutComplete` -/

/-- A property of the frames posted and queued, which posting leaves as they are. -/
def Ledger (p : List TxMailBox → Prop) (s : State) (t : Log) : Prop :=
  s.canTxQ.WellFormed ∧ p (posted t ++ s.canTxQ.contents)

private theorem ledger_same {p : List TxMailBox → Prop} {o : Op} {s : State}
    (hq : (s.exec o).canTxQ = s.canTxQ) (hp : postedBy (o, s) = []) (t : Log)
    (h : Ledger p s t) : Ledger p (s.exec o) (t ++ [(o, s)]) := by
  unfold Ledger
  rwa [hq, posted_concat, hp, List.append_nil]

private theorem ledger_tail (p : List TxMailBox → Prop) :
    Keeps (Ledger p) (do canPostFrames; canIfReceiveOutData) := by
  have hs : Stable device (Ledger p) := fun e s t h ↦ ledger_same (s.exec_event e).1 rfl t h
  refine keeps_bind (keeps_canPostFrames (keeps_postOne hs (fun _ t h ↦ ledger_same rfl rfl t h)
    ?_ fun _ _ t h ↦ ledger_same rfl rfl t h)) fun _ ↦ keeps_canIfReceiveOutData hs
      (fun _ t h ↦ ledger_same rfl rfl t h) fun _ _ t h ↦ ledger_same rfl rfl t h
  rintro m s t ⟨hq, h⟩ he
  refine ⟨hq.get, ?_⟩
  rw [posted_concat, List.append_assoc]
  rwa [Queue.contents_get hq (Queue.count_pos hq he)] at h

/-- The loop on one packet: in front of it, or behind it with the frame queued. -/
private def OnePacket (f : Frame) (start : Nat) (earlier : List TxMailBox) (pbuf length : Nat)
    (s : State) (t : Log) : Prop :=
  (pbuf = start ∧ length = f.packet.length ∧ cells s.canIfOut.buffer pbuf length = f.packet ∧
      s.canIfOut.buffer (pbuf + length) = 1 ∧ s.canTxQ.count < s.canTxQ.size ∧
      Ledger (· = earlier) s t) ∨
    (length = 0 ∧ s.canIfOut.buffer pbuf = 1 ∧
      Ledger (fun ms ↦ ∃ mb : TxMailBox, mb.Holds f ∧ ms = earlier ++ [mb]) s t)

private theorem packet_head {f : Frame} {buffer : Nat → UInt8} {pbuf length : Nat}
    (hl : length = f.packet.length) (h : cells buffer pbuf length = f.packet) :
    (buffer pbuf).toNat = length ∧ cells buffer (pbuf + 1) (length - 1) = f.body := by
  have hb := length_body f
  have hlen : f.packet.length = f.body.length + 1 := rfl
  obtain ⟨l, rfl⟩ : ∃ l, length = l + 1 := ⟨f.body.length, hl.trans hlen⟩
  rw [cells_succ, Frame.packet, List.cons.injEq] at h
  refine ⟨?_, h.2⟩
  rw [h.1, UInt8.toNat_ofNat', Nat.mod_eq_of_lt (by omega)]
  omega

private theorem onePacket_loop (f : Frame) (start : Nat) (earlier : List TxMailBox) :
    Triple (OnePacket f start earlier start f.packet.length)
      (outLoop (f.packet.length + 1) start f.packet.length) fun r s t ↦
        r ≠ none ∧ Ledger (fun ms ↦ ∃ mb : TxMailBox, mb.Holds f ∧ ms = earlier ++ [mb]) s t := by
  have hpos : f.packet.length ≠ 0 := nofun
  refine outLoop_rule (L := OnePacket f start earlier) ?_ ?_ ?_ ?_ _ _ _ (Nat.lt_succ_self _)
  · rintro pbuf length s t (⟨-, hl, hc, hsent, hfree, hq, he⟩ | ⟨hl, hsent, -⟩) hn h0 ha
    · obtain ⟨hhead, hbody⟩ := packet_head hl hc
      rw [hhead] at ha
      rw [hhead, Nat.sub_self]
      obtain ⟨f', mb, hrow, hmb, hput⟩ := accepted_spec hq ha
      obtain rfl : f' = f := by
        have hf' := (decodeBody_iff _ _).mpr hrow
        rw [hbody, decodeBody_body] at hf'
        exact (Option.some.inj hf').symm
      refine .inr ⟨rfl, hsent, ?_, mb, hmb, ?_⟩
      · rw [hput]
        exact hq.put mb
      · rw [hput, Queue.contents_put hq hfree, posted_concat, postedBy, List.append_nil,
          ← List.append_assoc, he]
    · rw [hsent, hl] at hn
      exact absurd hn (by decide)
  · rintro pbuf length s t (⟨-, hl, hc, -, -, hq, -⟩ | ⟨hl, hsent, -⟩) hn h0 ha s' -
    · obtain ⟨hhead, hbody⟩ := packet_head hl hc
      rw [hhead] at ha
      have hdec := (rejected_spec hq ha).1
      rw [hbody, decodeBody_body] at hdec
      contradiction
    · rw [hsent, hl] at hn
      exact absurd hn (by decide)
  · rintro pbuf length s t (⟨-, hl, hc, -⟩ | ⟨-, hsent, -⟩) h0
    · exact absurd ((packet_head hl hc).1.symm.trans h0 ▸ hl) hpos.symm
    · rw [hsent] at h0
      contradiction
  · rintro pbuf length s t (⟨-, hl, hc, -⟩ | ⟨-, -, h⟩) hn
    · have := (packet_head hl hc).1
      omega
    · exact ⟨nofun, h⟩

/-- A transfer that brings exactly one packet, with no fragment before it and a free slot,
queues one mailbox that holds the packet's frame. -/
theorem outCompletion_packet (f : Frame) (c : Config) (g : Region)
    (hg : c.state.armed = some g) (hl : f.packet.length ≤ g.length)
    (ho : c.state.canIfOut.offset = 0) (hq : c.state.canTxQ.WellFormed)
    (hfree : 1 ≤ c.state.canTxQ.space) :
    ∃ mb : TxMailBox, mb.Holds f ∧
      posted (outCompletion f.packet c).2.trace ++
          (outCompletion f.packet c).2.state.canTxQ.contents =
        (posted c.trace ++ c.state.canTxQ.contents) ++ [mb] := by
  have hspace := Queue.space_eq hq
  have hu : u16 (f.packet.length + 0) = f.packet.length := by
    have := length_body f
    exact u16_of_lt (by rw [Frame.packet, List.length_cons]; omega)
  have spec : Triple (fun s t ↦ s = c.state ∧ t = c.trace) (outCompletion f.packet) fun _ ↦
      Ledger fun ms ↦ ∃ mb : TxMailBox, mb.Holds f ∧
        ms = (posted c.trace ++ c.state.canTxQ.contents) ++ [mb] := by
    refine Triple.bind (R := fun a s t ↦ a = some g ∧ s = c.state ∧ t = c.trace)
      (Triple.observe ?_) fun a ↦ Triple.of_fact ?_
    · rintro s t ⟨rfl, rfl⟩
      exact ⟨hg, rfl, rfl⟩
    rintro rfl
    refine Triple.ite (fun _ ↦ ?_) fun h ↦ absurd hl h
    refine Triple.bind (R := fun _ s t ↦ s = c.state.exec (.deliver f.packet) ∧
      t = c.trace ++ [(.deliver f.packet, c.state)]) (Triple.perform _ ?_) fun _ ↦ ?_
    · rintro s t ⟨rfl, rfl⟩
      exact ⟨rfl, rfl⟩
    refine Triple.bind (R := fun offset s t ↦ offset = 0 ∧
      s = c.state.exec (.deliver f.packet) ∧ t = c.trace ++ [(.deliver f.packet, c.state)])
      (Triple.observe ?_) fun offset ↦ Triple.of_fact ?_
    · rintro s t ⟨rfl, rfl⟩
      exact ⟨by rw [exec_deliver hg]; exact ho, rfl, rfl⟩
    rintro rfl
    simp only [hu]
    refine Triple.bind (R := fun _ ↦ OnePacket f g.start
      (posted c.trace ++ c.state.canTxQ.contents) g.start f.packet.length)
      (Triple.perform _ ?_) fun _ ↦ Triple.bind (onePacket_loop f _ _) fun r ↦ ?_
    · rintro s t ⟨rfl, rfl⟩
      refine .inl ⟨rfl, rfl, ?_, Function.update_self _ _ _, ?_, ?_, ?_⟩
      · rw [exec_deliver hg]
        change cells (Function.update (store c.state.canIfOut.buffer g.start f.packet) _ 1) _ _ = _
        rw [Nat.sub_zero, cells_update _ _ _ _ _ (.inr (Nat.le_refl _)), cells_store]
      all_goals rw [exec_deliver hg]
      · change c.state.canTxQ.count < c.state.canTxQ.size
        omega
      · exact hq
      · rw [posted_concat, posted_concat, postedBy, postedBy, List.append_nil, List.append_nil]
        rfl
    · cases r with
      | none => exact fun _ h ↦ absurd rfl h.1
      | some r =>
        refine Triple.bind (Triple.perform _ fun s t h ↦ ledger_same rfl rfl t h.2) fun _ ↦
          ledger_tail _
  exact (spec c ⟨rfl, rfl⟩).2

/-! ### Reading a queued mailbox back -/

/-- A transmit mailbox read as a received frame. -/
def TxMailBox.asReceived (mb : TxMailBox) : RxMailBox := ⟨mb.TIR, mb.TDTR, mb.TDLR, mb.TDHR⟩

private theorem dlc_ofNat {n : Nat} (h : n ≤ 8) : dlc (BitVec.ofNat 32 n) = n := by
  interval_cases n <;> rfl

theorem TxMailBox.Holds.asReceived {mb : TxMailBox} {f : Frame} (h : mb.Holds f) :
    mb.asReceived.Holds f :=
  ⟨h.tir, (congrArg dlc h.tdtr).trans (dlc_ofNat f.length_data_le), h.data⟩

/-- The body of a request with its identifier reduced to eleven or twenty-nine bits. -/
def reduceId : List UInt8 → List UInt8
  | t :: b :: rest =>
    t :: (if t = canifFrameSdat ∨ t = canifFrameSrtr then b &&& 0x07 else b &&& 0x1F) :: rest
  | body => body

private theorem standardId_idBytes (b₁ b₀ : UInt8) (p : Payload) :
    (Frame.mk (standardId b₁ b₀) p).idBytes = [b₁ &&& 0x07, b₀] := by
  simp only [Frame.idBytes, standardId, List.cons.injEq, and_true]
  refine ⟨UInt8.toBitVec_inj.mp ?_, UInt8.toBitVec_inj.mp ?_⟩ <;>
  · apply BitVec.eq_of_getLsbD_eq
    intro i hi
    simp only [BitVec.getLsbD_extractLsb', BitVec.getLsbD_setWidth, BitVec.getLsbD_append,
      UInt8.toBitVec_and, BitVec.getLsbD_and]
    interval_cases i <;> simp

private theorem extendedId_idBytes (b₃ b₂ b₁ b₀ : UInt8) (p : Payload) :
    (Frame.mk (extendedId b₃ b₂ b₁ b₀) p).idBytes = [b₃ &&& 0x1F, b₂, b₁, b₀] := by
  simp only [Frame.idBytes, extendedId, List.cons.injEq, and_true]
  refine ⟨UInt8.toBitVec_inj.mp ?_, UInt8.toBitVec_inj.mp ?_, UInt8.toBitVec_inj.mp ?_,
    UInt8.toBitVec_inj.mp ?_⟩ <;>
  · apply BitVec.eq_of_getLsbD_eq
    intro i hi
    simp only [BitVec.getLsbD_extractLsb', BitVec.getLsbD_setWidth, BitVec.getLsbD_append,
      UInt8.toBitVec_and, BitVec.getLsbD_and]
    interval_cases i <;> simp

/-- A row of the table is the body of its frame, but for the identifier's excess bits. -/
theorem body_of_row {b : List UInt8} {f : Frame} (h : Row b f) : f.body = reduceId b := by
  cases h with
  | standardData b₁ b₀ bytes le => rw [Frame.body, standardId_idBytes]; rfl
  | standardRemote b₁ b₀ => rw [Frame.body, standardId_idBytes]; rfl
  | extendedData b₃ b₂ b₁ b₀ bytes le => rw [Frame.body, extendedId_idBytes]; rfl
  | extendedRemote b₃ b₂ b₁ b₀ => rw [Frame.body, extendedId_idBytes]; rfl

/-- Receive encoding and transmit decoding are inverse. The packet of a received frame, fed
to `CanIf_EpOutComplete` with no fragment and a free slot, queues one mailbox with the
registers the frame was received in, and `TXRQ` clear. A mailbox that `Can_HandleRequest`
queues, read back as a received frame, gives the request with its identifier reduced. -/
theorem receive_transmit_inverse :
    (∀ (f : Frame) (rx : RxMailBox) (stack : Nat → UInt8) (c : Config) (g : Region),
      rx.Holds f → c.state.armed = some g → f.packet.length ≤ g.length →
      c.state.canIfOut.offset = 0 → c.state.canTxQ.WellFormed → 1 ≤ c.state.canTxQ.space →
      ∃ mb : TxMailBox,
        posted (outCompletion (receivedPacket stack rx) c).2.trace ++
            (outCompletion (receivedPacket stack rx) c).2.state.canTxQ.contents =
          (posted c.trace ++ c.state.canTxQ.contents) ++ [mb] ∧
        mb.TIR = rx.RIR ∧ mb.TIR.getLsbD 0 = false ∧ dlc mb.TDTR = dlc rx.RDTR ∧
        dataBytes mb.TDLR mb.TDHR (dlc mb.TDTR) = dataBytes rx.RDLR rx.RDHR (dlc rx.RDTR)) ∧
    ∀ (q : Queue TxMailBox) (msg : Nat → UInt8) (length : Nat) (stack : Nat → UInt8),
      q.WellFormed → (canHandleRequest msg length q).1 = true →
      ∃ mb : TxMailBox, (canHandleRequest msg length q).2 = q.put mb ∧
        receivedMsg stack mb.asReceived = reduceId (cells msg 0 length) := by
  constructor
  · intro f rx stack c g hrx hg hl ho hq hfree
    rw [hrx.receivedPacket]
    obtain ⟨mb, hmb, he⟩ := outCompletion_packet f c g hg hl ho hq hfree
    have hd : dlc mb.TDTR = f.data.length := hmb.asReceived.rdtr
    refine ⟨mb, he, hmb.tir.trans hrx.rir.symm, ?_, hd.trans hrx.rdtr.symm, ?_⟩
    · rw [hmb.tir]
      exact ir_txrq f
    · rw [hd, hrx.rdtr, hmb.data, hrx.data]
  · intro q msg length stack hq ha
    have h := canHandleRequest_spec hq msg length
    split at h
    · next f hf =>
      obtain ⟨mb, hmb, he⟩ := h
      refine ⟨mb, by rw [he], ?_⟩
      rw [hmb.asReceived.receivedMsg]
      exact body_of_row ((decodeBody_iff _ _).mp hf)
    · rw [h.1] at ha
      contradiction

/-- The device opened after power-on, with all memory zero. -/
def opened : Config :=
  run (boot (fun _ ↦ ⟨0, 0, 0, 0⟩) (fun _ ↦ ⟨0, 0, 0, 0⟩) (fun _ ↦ 0) fun _ ↦ 0)
    [⟨.canIfOpen true true, []⟩]

/-- A standard frame with three bytes there and back, and a remote request with identifier
bytes `FF FF`. -/
theorem receive_transmit_inverse_opened :
    (∃ mb : TxMailBox,
      posted (outCompletion (receivedPacket (fun _ ↦ 0) ⟨0x24600000, 3, 0x030201, 0⟩)
            opened).2.trace ++
          (outCompletion (receivedPacket (fun _ ↦ 0) ⟨0x24600000, 3, 0x030201, 0⟩)
            opened).2.state.canTxQ.contents =
        (posted opened.trace ++ opened.state.canTxQ.contents) ++ [mb] ∧
      mb.TIR = 0x24600000 ∧ mb.TIR.getLsbD 0 = false ∧ dlc mb.TDTR = dlc 3 ∧
      dataBytes mb.TDLR mb.TDHR (dlc mb.TDTR) = dataBytes 0x030201 0 (dlc 3)) ∧
    ∃ mb : TxMailBox,
      (canHandleRequest (fun i ↦ [2, 0xFF, 0xFF].getD i 0) 3 opened.state.canTxQ).2 =
        opened.state.canTxQ.put mb ∧
      receivedMsg (fun _ ↦ 0) mb.asReceived =
        reduceId (cells (fun i ↦ [2, 0xFF, 0xFF].getD i 0) 0 3) := by
  have hq : opened.state.canTxQ.WellFormed :=
    ⟨by decide +kernel, by decide +kernel, by decide +kernel⟩
  refine ⟨?_, receive_transmit_inverse.2 _ _ 3 _ hq (by decide +kernel)⟩
  exact receive_transmit_inverse.1 ⟨.standard 0x123, .data [1, 2, 3] (by decide)⟩ _ _ opened
    ⟨0, 128⟩ ⟨rfl, by decide, by decide⟩ (by decide +kernel) (by decide) (by decide +kernel) hq
    (by decide +kernel)

end CanDybug
