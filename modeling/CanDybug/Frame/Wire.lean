import CanDybug.Base.Framing
import Mathlib.Tactic.IntervalCases

/-!
# CAN frames and the packets of the data pipe

Frames as the bus knows them, and the four frame packets of the `README.md` table
"Data pipe packets": a length byte counting the whole message, a type byte, the
identifier in big-endian order and up to eight data bytes.
-/

namespace CanDybug

open Base

/-- Identifier of a frame, standard or extended. -/
inductive Identifier where
  | standard (id : BitVec 11)
  | extended (id : BitVec 29)
  deriving DecidableEq

/-- A frame carries up to eight bytes, or is a remote request. -/
inductive Payload where
  | data (bytes : List UInt8) (le : bytes.length ≤ 8)
  | remote
  deriving DecidableEq

/-- A CAN 2.0 frame. Remote requests have no data length here. -/
structure Frame where
  id : Identifier
  payload : Payload
  deriving DecidableEq

/-- `CANIF_FRAME_SDAT`, `can_if.h:39`. -/
def canifFrameSdat : UInt8 := 0x00

/-- `CANIF_FRAME_SRTR`, `can_if.h:40`. -/
def canifFrameSrtr : UInt8 := 0x02

/-- `CANIF_FRAME_EDAT`, `can_if.h:41`. -/
def canifFrameEdat : UInt8 := 0x04

/-- `CANIF_FRAME_ERTR`, `can_if.h:42`. -/
def canifFrameErtr : UInt8 := 0x06

/-- `CANIF_ACK_FLAG`, `can_if.h:43`. -/
def canifAckFlag : UInt8 := 0x80

/-- `CANIF_BUS_ERROR`, `can_if.h:44`. -/
def canifBusError : UInt8 := 0x40

namespace Frame

/-- Data bytes of a frame; a remote request has none. -/
def data (f : Frame) : List UInt8 :=
  match f.payload with
  | .data bytes _ => bytes
  | .remote => []

theorem length_data_le (f : Frame) : f.data.length ≤ 8 := by
  unfold data
  split
  · next le _ => exact le
  · exact Nat.zero_le _

/-- Type byte of a frame packet. -/
def type (f : Frame) : UInt8 :=
  match f.id, f.payload with
  | .standard _, .data _ _ => canifFrameSdat
  | .standard _, .remote => canifFrameSrtr
  | .extended _, .data _ _ => canifFrameEdat
  | .extended _, .remote => canifFrameErtr

/-- Identifier bytes of a frame packet, most significant first. -/
def idBytes (f : Frame) : List UInt8 :=
  match f.id with
  | .standard id => [.ofBitVec (id.extractLsb' 8 8), .ofBitVec (id.extractLsb' 0 8)]
  | .extended id => [.ofBitVec (id.extractLsb' 24 8), .ofBitVec (id.extractLsb' 16 8),
      .ofBitVec (id.extractLsb' 8 8), .ofBitVec (id.extractLsb' 0 8)]

/-- Body of the packet: what follows the length byte. -/
def body (f : Frame) : List UInt8 := f.type :: (f.idBytes ++ f.data)

/-- The packet of a frame on the data pipe. -/
def packet (f : Frame) : List UInt8 := .ofNat (f.body.length + 1) :: f.body

theorem type_standard (id : BitVec 11) (p : Payload) :
    (Frame.mk (.standard id) p).type = canifFrameSdat ∨
      (Frame.mk (.standard id) p).type = canifFrameSrtr := by
  cases p
  · exact .inl rfl
  · exact .inr rfl

theorem type_extended (id : BitVec 29) (p : Payload) :
    (Frame.mk (.extended id) p).type = canifFrameEdat ∨
      (Frame.mk (.extended id) p).type = canifFrameErtr := by
  cases p
  · exact .inl rfl
  · exact .inr rfl

end Frame

/-- Identifier of two bytes: what exceeds 11 bits is dropped. -/
def standardId (b₁ b₀ : UInt8) : Identifier :=
  .standard ((b₁.toBitVec ++ b₀.toBitVec).setWidth 11)

/-- Identifier of four bytes: what exceeds 29 bits is dropped. -/
def extendedId (b₃ b₂ b₁ b₀ : UInt8) : Identifier :=
  .extended ((b₃.toBitVec ++ b₂.toBitVec ++ b₁.toBitVec ++ b₀.toBitVec).setWidth 29)

/-- The rows of the `README.md` table that a host may send, without the length byte. -/
inductive Row : List UInt8 → Frame → Prop
  | standardData (b₁ b₀ : UInt8) (bytes : List UInt8) (le : bytes.length ≤ 8) :
    Row (canifFrameSdat :: b₁ :: b₀ :: bytes) ⟨standardId b₁ b₀, .data bytes le⟩
  | standardRemote (b₁ b₀ : UInt8) : Row [canifFrameSrtr, b₁, b₀] ⟨standardId b₁ b₀, .remote⟩
  | extendedData (b₃ b₂ b₁ b₀ : UInt8) (bytes : List UInt8) (le : bytes.length ≤ 8) :
    Row (canifFrameEdat :: b₃ :: b₂ :: b₁ :: b₀ :: bytes)
      ⟨extendedId b₃ b₂ b₁ b₀, .data bytes le⟩
  | extendedRemote (b₃ b₂ b₁ b₀ : UInt8) :
    Row [canifFrameErtr, b₃, b₂, b₁, b₀] ⟨extendedId b₃ b₂ b₁ b₀, .remote⟩

/-- Decode the body of a packet by the table. -/
def decodeBody : List UInt8 → Option Frame
  | [] => none
  | t :: rest =>
    if t = canifFrameSdat then
      match rest with
      | b₁ :: b₀ :: bytes =>
        if le : bytes.length ≤ 8 then some ⟨standardId b₁ b₀, .data bytes le⟩ else none
      | _ => none
    else if t = canifFrameSrtr then
      match rest with
      | [b₁, b₀] => some ⟨standardId b₁ b₀, .remote⟩
      | _ => none
    else if t = canifFrameEdat then
      match rest with
      | b₃ :: b₂ :: b₁ :: b₀ :: bytes =>
        if le : bytes.length ≤ 8 then some ⟨extendedId b₃ b₂ b₁ b₀, .data bytes le⟩ else none
      | _ => none
    else if t = canifFrameErtr then
      match rest with
      | [b₃, b₂, b₁, b₀] => some ⟨extendedId b₃ b₂ b₁ b₀, .remote⟩
      | _ => none
    else none

/-- The decoder follows the table, row by row. -/
theorem decodeBody_iff (b : List UInt8) (f : Frame) : decodeBody b = some f ↔ Row b f := by
  constructor
  · intro h
    unfold decodeBody at h
    repeat' split at h
    all_goals first
      | contradiction
      | (simp only [Option.some.injEq] at h; subst h; subst_vars; constructor)
  · intro h
    cases h <;> simp_all [decodeBody, canifFrameSdat, canifFrameSrtr, canifFrameEdat,
      canifFrameErtr]

/-- The framing of the data pipe: the first byte counts the message. -/
def dataPipe : Framing UInt8 Frame := ⟨UInt8.toNat, decodeBody⟩

/-- A packet has 4 to 14 bytes, the first of which says how many. -/
theorem Row.length {b : List UInt8} {f : Frame} (h : Row b f) : 3 ≤ b.length ∧ b.length ≤ 13 := by
  cases h
  case standardData le => simp only [List.length_cons]; omega
  case standardRemote => simp
  case extendedData le => simp only [List.length_cons]; omega
  case extendedRemote => simp

private theorem standardId_bytes (id : BitVec 11) :
    standardId (.ofBitVec (id.extractLsb' 8 8)) (.ofBitVec (id.extractLsb' 0 8)) =
      .standard id := by
  unfold standardId
  congr 1
  apply BitVec.eq_of_getLsbD_eq
  intro i hi
  simp only [BitVec.getLsbD_setWidth, BitVec.getLsbD_append, BitVec.getLsbD_extractLsb']
  interval_cases i <;> simp

private theorem extendedId_bytes (id : BitVec 29) :
    extendedId (.ofBitVec (id.extractLsb' 24 8)) (.ofBitVec (id.extractLsb' 16 8))
      (.ofBitVec (id.extractLsb' 8 8)) (.ofBitVec (id.extractLsb' 0 8)) = .extended id := by
  unfold extendedId
  congr 1
  apply BitVec.eq_of_getLsbD_eq
  intro i hi
  simp only [BitVec.getLsbD_setWidth, BitVec.getLsbD_append, BitVec.getLsbD_extractLsb']
  interval_cases i <;> simp

/-- The body of a frame's packet is a row of the table for that frame. -/
theorem row_body (f : Frame) : Row f.body f := by
  obtain ⟨id, payload⟩ := f
  cases id with
  | standard id =>
    cases payload with
    | data bytes le =>
      have h := Row.standardData (.ofBitVec (id.extractLsb' 8 8)) (.ofBitVec (id.extractLsb' 0 8))
        bytes le
      rwa [standardId_bytes] at h
    | remote =>
      have h := Row.standardRemote (.ofBitVec (id.extractLsb' 8 8))
        (.ofBitVec (id.extractLsb' 0 8))
      rwa [standardId_bytes] at h
  | extended id =>
    cases payload with
    | data bytes le =>
      have h := Row.extendedData (.ofBitVec (id.extractLsb' 24 8))
        (.ofBitVec (id.extractLsb' 16 8)) (.ofBitVec (id.extractLsb' 8 8))
        (.ofBitVec (id.extractLsb' 0 8)) bytes le
      rwa [extendedId_bytes] at h
    | remote =>
      have h := Row.extendedRemote (.ofBitVec (id.extractLsb' 24 8))
        (.ofBitVec (id.extractLsb' 16 8)) (.ofBitVec (id.extractLsb' 8 8))
        (.ofBitVec (id.extractLsb' 0 8))
      rwa [extendedId_bytes] at h

/-- Decoding the body of a frame's packet gives the frame back. -/
theorem decodeBody_body (f : Frame) : decodeBody f.body = some f :=
  (decodeBody_iff _ _).mpr (row_body f)

theorem length_body (f : Frame) : 3 ≤ f.body.length ∧ f.body.length ≤ 13 := (row_body f).length

/-- A frame's packet is one message of the data pipe. -/
theorem message_packet (f : Frame) : dataPipe.Message f.packet f := by
  refine ⟨_, f.body, rfl, ?_, decodeBody_body f⟩
  have := length_body f
  change (UInt8.ofNat (f.body.length + 1)).toNat = _
  rw [UInt8.toNat_ofNat', Nat.mod_eq_of_lt (by omega), Frame.packet, List.length_cons]

end CanDybug
