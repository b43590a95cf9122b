import CanDybug.Base.Ring
import CanDybug.Base.Words
import CanDybug.Frame.Wire

/-!
# Mailbox registers

The transmit and receive mailboxes of the bxCAN peripheral are four words each. Bits 2
and 1 of the identifier register tell extended identifiers and remote requests, with the
identifier above them; the low four bits of the length register are the DLC; the data
bytes follow in memory order. `Holds` relates registers to the frame they stand for.
-/

namespace CanDybug

open Base

/-- `CAN_TxMailBox_TypeDef`. Bit 0 of `TIR`, `TXRQ`, is the peripheral's state. -/
@[ext] structure TxMailBox where
  TIR : BitVec 32
  TDTR : BitVec 32
  TDLR : BitVec 32
  TDHR : BitVec 32
  deriving DecidableEq

/-- `CAN_FIFOMailBox_TypeDef`. -/
structure RxMailBox where
  RIR : BitVec 32
  RDTR : BitVec 32
  RDLR : BitVec 32
  RDHR : BitVec 32
  deriving DecidableEq

/-- Mask of the remote request bit, `CAN_IDTYPE_STD_RTR`. -/
def canIdtypeStdRtr : BitVec 32 := 2

/-- Mask of the extended identifier bit, `CAN_IDTYPE_EXT_DATA`. -/
def canIdtypeExtData : BitVec 32 := 4

/-- Mask of both type bits, `CAN_IDTYPE_EXT_RTR`. -/
def canIdtypeExtRtr : BitVec 32 := 6

/-- Value of an `uint8_t` in a 32-bit expression. -/
def word (b : UInt8) : BitVec 32 := b.toBitVec.setWidth 32

/-- Data byte `i` of a low and a high data register. -/
def dataByte (lo hi : BitVec 32) (i : Nat) : UInt8 :=
  if i < 4 then byteAt lo i else byteAt hi (i - 4)

/-- Store data byte `i` of a mailbox. -/
def TxMailBox.setData (mb : TxMailBox) (i : Nat) (b : UInt8) : TxMailBox :=
  if i < 4 then { mb with TDLR := setByte mb.TDLR i b }
  else { mb with TDHR := setByte mb.TDHR (i - 4) b }

/-- `memcpy` to the data registers from byte `i` on. -/
def TxMailBox.memcpyData (mb : TxMailBox) (i : Nat) : List UInt8 → TxMailBox
  | [] => mb
  | b :: bs => (mb.setData i b).memcpyData (i + 1) bs

@[simp] theorem TIR_memcpyData (mb : TxMailBox) (i : Nat) (bs : List UInt8) :
    (mb.memcpyData i bs).TIR = mb.TIR := by
  induction bs generalizing mb i with
  | nil => rfl
  | cons b bs ih =>
    rw [TxMailBox.memcpyData, ih, TxMailBox.setData]
    split <;> rfl

@[simp] theorem TDTR_memcpyData (mb : TxMailBox) (i : Nat) (bs : List UInt8) :
    (mb.memcpyData i bs).TDTR = mb.TDTR := by
  induction bs generalizing mb i with
  | nil => rfl
  | cons b bs ih =>
    rw [TxMailBox.memcpyData, ih, TxMailBox.setData]
    split <;> rfl

private theorem dataByte_setData (mb : TxMailBox) (i j : Nat) (b : UInt8) (hi : i < 8)
    (hj : j < 8) : dataByte (mb.setData i b).TDLR (mb.setData i b).TDHR j =
      if j = i then b else dataByte mb.TDLR mb.TDHR j := by
  unfold TxMailBox.setData dataByte
  by_cases hi4 : i < 4 <;> by_cases hj4 : j < 4
  · simp only [hi4, hj4, if_true]
    exact byteAt_setByte _ _ _ _ hi4 hj4
  · simp only [hi4, hj4, if_true, if_false]
    rw [if_neg (by omega)]
  · simp only [hi4, hj4, if_true, if_false]
    rw [if_neg (by omega)]
  · simp only [hi4, hj4, if_false]
    rw [byteAt_setByte _ _ _ _ (by omega) (by omega)]
    by_cases h : j = i
    · rw [if_pos h, if_pos (by omega)]
    · rw [if_neg h, if_neg (by omega)]

/-- The copied bytes are the data bytes after the copy. -/
theorem dataByte_memcpyData (mb : TxMailBox) (i j : Nat) (bs : List UInt8)
    (hb : i + bs.length ≤ 8) (hj : j < 8) :
    dataByte (mb.memcpyData i bs).TDLR (mb.memcpyData i bs).TDHR j =
      if h : i ≤ j ∧ j < i + bs.length then bs[j - i] else dataByte mb.TDLR mb.TDHR j := by
  induction bs generalizing mb i with
  | nil => simp [TxMailBox.memcpyData, show ¬ (i ≤ j ∧ j < i) by omega]
  | cons b bs ih =>
    simp only [List.length_cons] at hb
    rw [TxMailBox.memcpyData, ih _ _ (by omega), dataByte_setData _ _ _ _ (by omega) hj]
    simp only [List.length_cons]
    by_cases he : j = i
    · subst he
      simp
    · by_cases hlt : i + 1 ≤ j ∧ j < i + 1 + bs.length
      · rw [dif_pos hlt, dif_pos (by omega)]
        simp only [show j - i = j - (i + 1) + 1 by omega, List.getElem_cons_succ]
      · rw [dif_neg hlt, if_neg he, dif_neg (by omega)]

/-- The first `n` data bytes of a low and a high data register. -/
def dataBytes (lo hi : BitVec 32) (n : Nat) : List UInt8 := (List.range n).map (dataByte lo hi)

/-- Copied bytes read back. -/
theorem dataBytes_memcpyData (mb : TxMailBox) (bs : List UInt8) (hb : bs.length ≤ 8) :
    dataBytes (mb.memcpyData 0 bs).TDLR (mb.memcpyData 0 bs).TDHR bs.length = bs := by
  apply List.ext_getElem
  · simp [dataBytes]
  · intro i hi hi'
    simp only [dataBytes, List.getElem_map, List.getElem_range]
    rw [dataByte_memcpyData _ _ _ _ (by omega) (by omega), dif_pos ⟨Nat.zero_le _, by omega⟩]
    rfl

/-- Identifier register of a frame: the type bits, the identifier above them, all other
bits clear. -/
def Frame.ir (f : Frame) : BitVec 32 :=
  match f.id with
  | .standard id => word f.type ||| id.setWidth 32 <<< 21
  | .extended id => word f.type ||| id.setWidth 32 <<< 3

/-- A transmit mailbox holds a frame: the identifier register is exactly the frame's,
the DLC counts the data bytes, and the first data bytes are the frame's. -/
structure TxMailBox.Holds (mb : TxMailBox) (f : Frame) : Prop where
  tir : mb.TIR = f.ir
  tdtr : mb.TDTR = BitVec.ofNat 32 f.data.length
  data : dataBytes mb.TDLR mb.TDHR f.data.length = f.data

/-- The DLC field of a length register, `CAN_RDT0R_DLC`. -/
def dlc (rdtr : BitVec 32) : Nat := (rdtr &&& 0xF).toNat

/-- A receive mailbox holds a frame. Other fields of the length register and the data
bytes after the frame's are arbitrary. -/
structure RxMailBox.Holds (mb : RxMailBox) (f : Frame) : Prop where
  rir : mb.RIR = f.ir
  rdtr : dlc mb.RDTR = f.data.length
  data : dataBytes mb.RDLR mb.RDHR f.data.length = f.data

/-- The type bits of a frame's identifier register are its type byte. -/
theorem ir_and_type (f : Frame) : f.ir &&& canIdtypeExtRtr = word f.type := by
  obtain ⟨id, payload⟩ := f
  cases id <;> cases payload <;>
  · apply BitVec.eq_of_getLsbD_eq
    intro i hi
    simp only [Frame.ir, Frame.type, word, canIdtypeExtRtr, BitVec.getLsbD_and,
      BitVec.getLsbD_or, BitVec.getLsbD_shiftLeft, BitVec.getLsbD_setWidth]
    interval_cases i <;> simp <;> decide

/-- The low byte of a zero-extended byte. -/
theorem byteAt_word (b : UInt8) : byteAt (word b) 0 = b := by
  apply UInt8.toBitVec_inj.mp
  apply BitVec.eq_of_getLsbD_eq
  intro i hi
  simp [byteAt, word, hi, show i < 32 by omega]

/-- The remote request bit of a frame's identifier register tells remote requests. -/
theorem ir_and_rtr (f : Frame) : f.ir &&& canIdtypeStdRtr = 0 ↔ f.payload ≠ .remote := by
  have h : f.ir &&& canIdtypeStdRtr = word f.type &&& canIdtypeStdRtr := by
    rw [← ir_and_type, BitVec.and_assoc]
    rfl
  rw [h]
  obtain ⟨id, payload⟩ := f
  cases id <;> cases payload <;> simp [Frame.type] <;> decide

/-- No frame's identifier register requests transmission: `TXRQ` is clear. -/
theorem ir_txrq (f : Frame) : f.ir.getLsbD 0 = false := by
  obtain ⟨id, payload⟩ := f
  cases id <;> cases payload <;> simp [Frame.ir, Frame.type, word] <;> decide

end CanDybug
