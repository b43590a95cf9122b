import CanDybug.Frame.Mailbox

/-!
# Messages of received frames

The body of `Can_FrameReceived`'s loop, `App/can_if.c:338–376`, from the four FIFO
registers to the bytes that `CanIf_AddMessage` reads. The message is put together inside
a word array of 16 bytes, at byte 5 or 3 of it; a byte of the array that was never
stored has no value, and neither has a byte beyond its end.
-/

namespace CanDybug

open Base

/-- A byte memory in which not every byte has been stored. -/
abbrev PartialBytes := Nat → Option UInt8

/-- Store the low half of a word at a byte address. -/
def store16 (buf : PartialBytes) (i : Nat) (w : BitVec 32) : PartialBytes :=
  Function.update (Function.update buf i (byteAt w 0)) (i + 1) (byteAt w 1)

/-- Store a word at a byte address. -/
def store32 (buf : PartialBytes) (i : Nat) (w : BitVec 32) : PartialBytes :=
  store16 (store16 buf i w) (i + 2) (w >>> 16)

/-- What `Can_FrameReceived` passes to `CanIf_AddMessage`: the array, where the message
starts in it, and its length. -/
structure Assembled where
  buf : PartialBytes
  msg : Nat
  len : Nat

/-- Loop body of `Can_FrameReceived`, `can_if.c:343–372`. -/
def assemble (rx : RxMailBox) : Assembled :=
  let len := dlc rx.RDTR
  let (buf, msg, len) :=
    if rx.RIR &&& canIdtypeExtData = 0 then
      let msg := 5
      (store16 (fun _ ↦ none) (msg + 1) (rev16 (rx.RIR >>> 21)), msg, len + (1 + 2))
    else
      let msg := 3
      (store32 (fun _ ↦ none) (msg + 1) (rev (rx.RIR >>> 3)), msg, len + (1 + 4))
  let buf := Function.update buf msg (some (byteAt (rx.RIR &&& canIdtypeExtRtr) 0))
  let buf := store32 buf 8 rx.RDLR
  let buf := store32 buf 12 rx.RDHR
  ⟨buf, msg, len⟩

/-- The bytes read as the message. Where the array has no value they are whatever the
stack holds there. -/
def receivedMsg (stack : Nat → UInt8) (rx : RxMailBox) : List UInt8 :=
  (List.range (assemble rx).len).map fun i ↦
    ((assemble rx).buf ((assemble rx).msg + i)).getD (stack ((assemble rx).msg + i))

/-- Every byte of the message is a stored byte of the 16-byte array. -/
def ReadsInitialised (rx : RxMailBox) : Prop :=
  ∀ i, i < (assemble rx).len →
    (assemble rx).msg + i < 16 ∧ ((assemble rx).buf ((assemble rx).msg + i)).isSome

instance (rx : RxMailBox) : Decidable (ReadsInitialised rx) :=
  inferInstanceAs (Decidable (∀ i, i < (assemble rx).len → _))

/-- The frame that receive registers stand for. -/
def RxMailBox.frame (rx : RxMailBox) (le : dlc rx.RDTR ≤ 8) : Frame where
  id := if rx.RIR &&& canIdtypeExtData = 0 then .standard ((rx.RIR >>> 21).setWidth 11)
    else .extended ((rx.RIR >>> 3).setWidth 29)
  payload := if rx.RIR &&& canIdtypeStdRtr = 0
    then .data (dataBytes rx.RDLR rx.RDHR (dlc rx.RDTR)) (by simpa [dataBytes] using le)
    else .remote

/-! ### The array -/

private theorem store32_eq (buf : PartialBytes) (i j : Nat) (w : BitVec 32) :
    store32 buf i w j = if i ≤ j ∧ j < i + 4 then some (byteAt w (j - i)) else buf j := by
  simp only [store32, store16, Function.update_apply, byteAt_shift]
  by_cases h : i ≤ j ∧ j < i + 4
  · obtain ⟨d, rfl⟩ := Nat.exists_eq_add_of_le h.1
    have hd : d < 4 := by omega
    rw [if_pos h, Nat.add_sub_cancel_left]
    interval_cases d <;> split_ifs <;> first | rfl | omega
  · rw [if_neg h]
    split_ifs <;> first | rfl | omega

/-- The two data words are the last eight bytes of the array. -/
theorem assemble_data (rx : RxMailBox) (i : Nat) (hi : i < 8) :
    (assemble rx).buf (8 + i) = some (dataByte rx.RDLR rx.RDHR i) := by
  have hbuf : ∃ buf, (assemble rx).buf = store32 (store32 buf 8 rx.RDLR) 12 rx.RDHR := by
    unfold assemble
    split <;> exact ⟨_, rfl⟩
  obtain ⟨buf, hbuf⟩ := hbuf
  rw [hbuf, store32_eq, store32_eq, dataByte]
  by_cases h4 : i < 4
  · rw [if_neg (by omega), if_pos (by omega), if_pos h4, Nat.add_sub_cancel_left]
  · rw [if_pos (by omega), if_neg h4]
    congr 2
    omega

variable (rx : RxMailBox)

/-- A standard frame: type at byte 5, two identifier bytes after it. -/
theorem assemble_standard (h : rx.RIR &&& canIdtypeExtData = 0) :
    (assemble rx).msg = 5 ∧ (assemble rx).len = dlc rx.RDTR + 3 ∧
      (assemble rx).buf 5 = some (byteAt (rx.RIR &&& canIdtypeExtRtr) 0) ∧
      (assemble rx).buf 6 = some (byteAt (rx.RIR >>> 21) 1) ∧
      (assemble rx).buf 7 = some (byteAt (rx.RIR >>> 21) 0) := by
  have h0 := byteAt_rev16 (rx.RIR >>> 21) 0 (by omega)
  have h1 := byteAt_rev16 (rx.RIR >>> 21) 1 (by omega)
  simp only [assemble, if_pos h]
  simp [store32_eq, store16, h0, h1]

/-- An extended frame: type at byte 3, four identifier bytes after it. -/
theorem assemble_extended (h : rx.RIR &&& canIdtypeExtData ≠ 0) :
    (assemble rx).msg = 3 ∧ (assemble rx).len = dlc rx.RDTR + 5 ∧
      (assemble rx).buf 3 = some (byteAt (rx.RIR &&& canIdtypeExtRtr) 0) ∧
      (assemble rx).buf 4 = some (byteAt (rx.RIR >>> 3) 3) ∧
      (assemble rx).buf 5 = some (byteAt (rx.RIR >>> 3) 2) ∧
      (assemble rx).buf 6 = some (byteAt (rx.RIR >>> 3) 1) ∧
      (assemble rx).buf 7 = some (byteAt (rx.RIR >>> 3) 0) := by
  have h0 := byteAt_rev (rx.RIR >>> 3) 0 (by omega)
  have h1 := byteAt_rev (rx.RIR >>> 3) 1 (by omega)
  have h2 := byteAt_rev (rx.RIR >>> 3) 2 (by omega)
  have h3 := byteAt_rev (rx.RIR >>> 3) 3 (by omega)
  simp only [assemble, if_neg h]
  simp [store32_eq, h0, h1, h2, h3]

/-! ### The message -/

-- What is read at offset `i` of the message.
private def messageByte (stack : Nat → UInt8) (i : Nat) : UInt8 :=
  ((assemble rx).buf ((assemble rx).msg + i)).getD (stack ((assemble rx).msg + i))

private theorem receivedMsg_split (stack : Nat → UInt8) (header : Nat)
    (hl : (assemble rx).len = dlc rx.RDTR + header) (hm : (assemble rx).msg + header = 8)
    (h8 : dlc rx.RDTR ≤ 8) :
    receivedMsg stack rx = (List.range header).map (messageByte rx stack) ++
      dataBytes rx.RDLR rx.RDHR (dlc rx.RDTR) := by
  unfold receivedMsg
  rw [hl, Nat.add_comm, List.range_add, List.map_append, List.map_map]
  congr 1
  apply List.map_congr_left
  intro i hi
  have hi := List.mem_range.mp hi
  have hb := assemble_data rx i (by omega)
  simp only [Function.comp, ← Nat.add_assoc, hm, hb, Option.getD_some]

private theorem and_bit (w : BitVec 32) (k : Nat) (hk : k < 32) :
    w &&& 1#32 <<< k = 0 ↔ w.getLsbD k = false := by
  constructor
  · intro h
    have hb := congrArg (fun v ↦ v.getLsbD k) h
    simpa [hk] using hb
  · intro h
    apply BitVec.eq_of_getLsbD_eq
    intro i hi
    by_cases hik : i = k
    · subst hik
      simp [h]
    · have hne : i < k ∨ i - k ≠ 0 := by omega
      rcases hne with hlt | hne
      · simp [hlt]
      · simp [hne]

theorem type_byte (w : BitVec 32) :
    byteAt (w &&& canIdtypeExtRtr) 0 =
      if w &&& canIdtypeExtData = 0 then
        if w &&& canIdtypeStdRtr = 0 then canifFrameSdat else canifFrameSrtr
      else if w &&& canIdtypeStdRtr = 0 then canifFrameEdat else canifFrameErtr := by
  have h2 : w &&& canIdtypeExtData = 0 ↔ w.getLsbD 2 = false := and_bit w 2 (by omega)
  have h1 : w &&& canIdtypeStdRtr = 0 ↔ w.getLsbD 1 = false := and_bit w 1 (by omega)
  have h6 : w &&& canIdtypeExtRtr =
      (if w.getLsbD 2 then 4 else 0) ||| (if w.getLsbD 1 then 2 else 0) := by
    cases hb2 : w.getLsbD 2 <;> cases hb1 : w.getLsbD 1 <;>
    · apply BitVec.eq_of_getLsbD_eq
      intro i hi
      rw [BitVec.getLsbD_eq_getElem (by omega)] at hb1 hb2
      rw [BitVec.getLsbD_and, canIdtypeExtRtr]
      interval_cases i <;> simp [hb1, hb2]
  simp only [h1, h2, h6]
  cases w.getLsbD 2 <;> cases w.getLsbD 1 <;> rfl

private theorem standard_byte (w : BitVec 32) (i : Nat) :
    byteAt (w >>> 21) i = .ofBitVec (((w >>> 21).setWidth 11).extractLsb' (8 * i) 8) := by
  apply UInt8.toBitVec_inj.mp
  apply BitVec.eq_of_getLsbD_eq
  intro k hk
  simp only [byteAt, BitVec.getLsbD_extractLsb', BitVec.getLsbD_setWidth,
    BitVec.getLsbD_ushiftRight]
  by_cases hb : 8 * i + k < 11
  · simp [hb]
  · rw [BitVec.getLsbD_of_ge w _ (by omega)]
    simp

private theorem extended_byte (w : BitVec 32) (i : Nat) :
    byteAt (w >>> 3) i = .ofBitVec (((w >>> 3).setWidth 29).extractLsb' (8 * i) 8) := by
  apply UInt8.toBitVec_inj.mp
  apply BitVec.eq_of_getLsbD_eq
  intro k hk
  simp only [byteAt, BitVec.getLsbD_extractLsb', BitVec.getLsbD_setWidth,
    BitVec.getLsbD_ushiftRight]
  by_cases hb : 8 * i + k < 29
  · simp [hb]
  · rw [BitVec.getLsbD_of_ge w _ (by omega)]
    simp

/-- The bytes of the message in front of the data bytes. -/
def headerBytes : List UInt8 :=
  byteAt (rx.RIR &&& canIdtypeExtRtr) 0 ::
    if rx.RIR &&& canIdtypeExtData = 0 then [byteAt (rx.RIR >>> 21) 1, byteAt (rx.RIR >>> 21) 0]
    else [byteAt (rx.RIR >>> 3) 3, byteAt (rx.RIR >>> 3) 2, byteAt (rx.RIR >>> 3) 1,
      byteAt (rx.RIR >>> 3) 0]

/-- Up to eight data bytes, the message is its header and the data bytes. -/
theorem receivedMsg_bytes (stack : Nat → UInt8) (h8 : dlc rx.RDTR ≤ 8) :
    receivedMsg stack rx = headerBytes rx ++ dataBytes rx.RDLR rx.RDHR (dlc rx.RDTR) := by
  by_cases h : rx.RIR &&& canIdtypeExtData = 0
  · obtain ⟨hm, hl, h5, h6, h7⟩ := assemble_standard rx h
    rw [receivedMsg_split rx stack 3 hl (by rw [hm]) h8, headerBytes, if_pos h]
    simp [List.range_succ, messageByte, hm, h5, h6, h7]
  · obtain ⟨hm, hl, h3, h4, h5, h6, h7⟩ := assemble_extended rx h
    rw [receivedMsg_split rx stack 5 hl (by rw [hm]) h8, headerBytes, if_neg h]
    simp [List.range_succ, messageByte, hm, h3, h4, h5, h6, h7]

private theorem frame_standard (le : dlc rx.RDTR ≤ 8) (h : rx.RIR &&& canIdtypeExtData = 0) :
    (rx.frame le).id = .standard ((rx.RIR >>> 21).setWidth 11) := if_pos h

private theorem frame_extended (le : dlc rx.RDTR ≤ 8) (h : rx.RIR &&& canIdtypeExtData ≠ 0) :
    (rx.frame le).id = .extended ((rx.RIR >>> 3).setWidth 29) := if_neg h

private theorem frame_payload (le : dlc rx.RDTR ≤ 8) (h : rx.RIR &&& canIdtypeStdRtr = 0) :
    ∃ le', (rx.frame le).payload = .data (dataBytes rx.RDLR rx.RDHR (dlc rx.RDTR)) le' :=
  ⟨_, if_pos h⟩

private theorem frame_remote (le : dlc rx.RDTR ≤ 8) (h : rx.RIR &&& canIdtypeStdRtr ≠ 0) :
    (rx.frame le).payload = .remote := if_neg h

/-- With up to eight data bytes, and none in a remote frame, the message is the body of
the packet of the received frame. -/
theorem receivedMsg_eq (stack : Nat → UInt8) (le : dlc rx.RDTR ≤ 8)
    (hr : rx.RIR &&& canIdtypeStdRtr ≠ 0 → dlc rx.RDTR = 0) :
    receivedMsg stack rx = (rx.frame le).body := by
  have hdata : (rx.frame le).data = dataBytes rx.RDLR rx.RDHR (dlc rx.RDTR) := by
    by_cases h : rx.RIR &&& canIdtypeStdRtr = 0
    · obtain ⟨le', hp⟩ := frame_payload rx le h
      rw [Frame.data, hp]
    · rw [Frame.data, frame_remote rx le h, hr h]
      rfl
  have htype : byteAt (rx.RIR &&& canIdtypeExtRtr) 0 = (rx.frame le).type := by
    rw [type_byte, Frame.type]
    by_cases h : rx.RIR &&& canIdtypeExtData = 0 <;>
      by_cases hd : rx.RIR &&& canIdtypeStdRtr = 0
    · obtain ⟨le', hp⟩ := frame_payload rx le hd
      rw [if_pos h, if_pos hd, frame_standard rx le h, hp]
    · rw [if_pos h, if_neg hd, frame_standard rx le h, frame_remote rx le hd]
    · obtain ⟨le', hp⟩ := frame_payload rx le hd
      rw [if_neg h, if_pos hd, frame_extended rx le h, hp]
    · rw [if_neg h, if_neg hd, frame_extended rx le h, frame_remote rx le hd]
  rw [receivedMsg_bytes rx stack le, Frame.body, hdata, headerBytes, htype, List.cons_append]
  congr 2
  by_cases h : rx.RIR &&& canIdtypeExtData = 0
  · rw [if_pos h, Frame.idBytes, frame_standard rx le h, standard_byte, standard_byte]
  · rw [if_neg h, Frame.idBytes, frame_extended rx le h, extended_byte, extended_byte,
      extended_byte, extended_byte]

/-! ### What the host can count on -/

/-- What goes on the wire for a received frame: the message behind its length byte. -/
def receivedPacket (stack : Nat → UInt8) (rx : RxMailBox) : List UInt8 :=
  .ofNat ((receivedMsg stack rx).length + 1) :: receivedMsg stack rx

/-- The message is read from initialised bytes of the array, and on the wire it is a frame
packet of the `README.md` table. -/
def Documented (rx : RxMailBox) : Prop :=
  ReadsInitialised rx ∧ ∀ stack, ∃ f, dataPipe.Message (receivedPacket stack rx) f

theorem length_receivedMsg (stack : Nat → UInt8) :
    (receivedMsg stack rx).length =
      dlc rx.RDTR + if rx.RIR &&& canIdtypeExtData = 0 then 3 else 5 := by
  rw [receivedMsg, List.length_map, List.length_range]
  by_cases h : rx.RIR &&& canIdtypeExtData = 0
  · rw [(assemble_standard rx h).2.1, if_pos h]
  · rw [(assemble_extended rx h).2.1, if_neg h]

/-- The message starts with the type byte. -/
theorem receivedMsg_cons (stack : Nat → UInt8) :
    ∃ rest, receivedMsg stack rx = byteAt (rx.RIR &&& canIdtypeExtRtr) 0 :: rest := by
  have head (n : Nat) (hl : (assemble rx).len = n + 1)
      (hb : (assemble rx).buf (assemble rx).msg = some (byteAt (rx.RIR &&& canIdtypeExtRtr) 0)) :
      ∃ rest, receivedMsg stack rx = byteAt (rx.RIR &&& canIdtypeExtRtr) 0 :: rest := by
    rw [receivedMsg, hl, List.range_succ_eq_map, List.map_cons, Nat.add_zero, hb]
    exact ⟨_, rfl⟩
  by_cases h : rx.RIR &&& canIdtypeExtData = 0
  · obtain ⟨hm, hl, hb, -⟩ := assemble_standard rx h
    exact head _ hl (hm ▸ hb)
  · obtain ⟨hm, hl, hb, -⟩ := assemble_extended rx h
    exact head _ hl (hm ▸ hb)

/-- The message stays inside the array exactly up to eight data bytes. -/
theorem readsInitialised_iff : ReadsInitialised rx ↔ dlc rx.RDTR ≤ 8 := by
  by_cases h : rx.RIR &&& canIdtypeExtData = 0
  · obtain ⟨hm, hl, h5, h6, h7⟩ := assemble_standard rx h
    constructor
    · intro hi
      by_contra hc
      have := (hi 11 (by omega)).1
      omega
    · intro h8 i hi
      rw [hm]
      refine ⟨by omega, ?_⟩
      by_cases h3 : i < 3
      · interval_cases i <;> simp [h5, h6, h7]
      · have hd := assemble_data rx (i - 3) (by omega)
        rw [show 8 + (i - 3) = 5 + i by omega] at hd
        simp [hd]
  · obtain ⟨hm, hl, h3, h4, h5, h6, h7⟩ := assemble_extended rx h
    constructor
    · intro hi
      by_contra hc
      have := (hi 13 (by omega)).1
      omega
    · intro h8 i hi
      rw [hm]
      refine ⟨by omega, ?_⟩
      by_cases hi5 : i < 5
      · interval_cases i <;> simp [h3, h4, h5, h6, h7]
      · have hd := assemble_data rx (i - 5) (by omega)
        rw [show 8 + (i - 5) = 3 + i by omega] at hd
        simp [hd]

private theorem remote_length {b : List UInt8} {f : Frame} (h : Row b f) :
    (b.head? = some canifFrameSrtr → b.length = 3) ∧
      (b.head? = some canifFrameErtr → b.length = 5) := by
  cases h <;> simp [canifFrameSdat, canifFrameSrtr, canifFrameEdat, canifFrameErtr]

/-- A received frame is encoded as documented exactly if its DLC field is at most eight,
and zero in a remote frame. -/
theorem canFrameReceived_documented (rx : RxMailBox) :
    Documented rx ↔
      dlc rx.RDTR ≤ 8 ∧ (rx.RIR &&& canIdtypeStdRtr ≠ 0 → dlc rx.RDTR = 0) := by
  constructor
  · rintro ⟨hi, hw⟩
    have h8 := (readsInitialised_iff rx).mp hi
    refine ⟨h8, fun hr ↦ ?_⟩
    obtain ⟨f, b, body, he, -, hd⟩ := hw fun _ ↦ 0
    obtain ⟨-, rfl⟩ := List.cons.inj he
    have hlen := length_receivedMsg rx fun _ ↦ 0
    have hrow := remote_length ((decodeBody_iff _ _).mp hd)
    have hhead : (receivedMsg (fun _ ↦ 0) rx).head? =
        some (byteAt (rx.RIR &&& canIdtypeExtRtr) 0) := by
      rw [receivedMsg_bytes rx _ h8, headerBytes]
      rfl
    rw [hhead, type_byte, if_neg hr, if_neg hr] at hrow
    by_cases h : rx.RIR &&& canIdtypeExtData = 0
    · rw [if_pos h] at hlen hrow
      have := hrow.1 rfl
      omega
    · rw [if_neg h] at hlen hrow
      have := hrow.2 rfl
      omega
  · rintro ⟨h8, hr⟩
    refine ⟨(readsInitialised_iff rx).mpr h8, fun stack ↦ ⟨rx.frame h8, ?_⟩⟩
    rw [receivedPacket, receivedMsg_eq rx stack h8 hr]
    exact message_packet _

/-- A data frame whose DLC field is nine, as CAN 2.0 allows with eight data bytes: the
last byte of the message is read from behind the array. -/
theorem canFrameReceived_dlc_nine : ¬ Documented ⟨0x24600000, 9, 0, 0⟩ :=
  fun h ↦ absurd h.1 (by decide)

end CanDybug
