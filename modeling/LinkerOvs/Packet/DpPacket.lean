/-
Packet buffers (`lib/dp-packet.h`): the bytes of a packet with the offset of its transport header,
and the bounds-checked access every reader goes through.
-/
import LinkerOvs.Util.ByteOrder

namespace LinkerOvs

/-- A `struct dp_packet`: its bytes from `dp_packet_data` on, the transport header's offset
(`none` is the `UINT16_MAX` of an unset one) and the bytes of link-layer padding at its end. -/
structure DpPacket where
  data : List UInt8
  l4Ofs : Option Nat
  l2PadSize : Nat
deriving DecidableEq, Repr

namespace DpPacket

def udpHeaderLen : Nat := 8

variable (p : DpPacket) (offset : Nat)

/-- `dp_packet_l4_size`, whose subtraction is one of `size_t`. -/
def l4Size : Nat :=
  match p.l4Ofs with
  | none => 0
  | some ofs => (((p.data.length : Int) - ofs - p.l2PadSize) % 2 ^ 64).toNat

/-- `dp_packet_get_udp_payload`, as an offset into the packet; `none` is `NULL`. -/
def getUdpPayload : Option Nat :=
  if udpHeaderLen ≤ p.l4Size then p.l4Ofs.map (· + udpHeaderLen) else none

/-- `dp_packet_at`: the `size` bytes at `offset`, `none` for the `NULL` of an access past the end. -/
def at? (offset size : Nat) : Option (List UInt8) :=
  if offset + size ≤ p.data.length then some ((p.data.drop offset).take size) else none

/-- What a reader sees through the pointer `dp_packet_at (packet, offset, 1)`. -/
def u8At : Option UInt8 :=
  (p.at? offset 1).map fun bs => bs.getD 0 0

/-- What a reader sees through the `ovs_be16` pointer `dp_packet_at (packet, offset, 2)`. -/
def be16At : Option UInt16 :=
  (p.at? offset 2).map fun bs => loadBe16 (bs.getD 0 0) (bs.getD 1 0)

/-- What a reader sees through the `ovs_be32` pointer `dp_packet_at (packet, offset, 4)`. -/
def be32At : Option UInt32 :=
  (p.at? offset 4).map fun bs => loadBe32 (bs.getD 0 0) (bs.getD 1 0) (bs.getD 2 0) (bs.getD 3 0)

/-! ## Bytes by offset

What the readers see inside the packet, as total functions of its bytes. -/

def byteAt : UInt8 := p.data.getD offset 0

def word16At : UInt16 := loadBe16 (p.byteAt offset) (p.byteAt (offset + 1))

def word32At : UInt32 :=
  loadBe32 (p.byteAt offset) (p.byteAt (offset + 1)) (p.byteAt (offset + 2)) (p.byteAt (offset + 3))

theorem getD_take_drop {offset size i : Nat} (hi : i < size) :
    ((p.data.drop offset).take size).getD i 0 = p.byteAt (offset + i) := by
  simp [byteAt, hi]

end DpPacket

end LinkerOvs
