/-
The symmetric hashes of a flow and of the flow in the other direction (`flow_hash_symmetric_l4` and
`flow_hash_symmetric_l3l4` in `lib/flow.c`). They are the same, but for IPv6 flows hashed by L3 and L4, where the hash
reads past the addresses and takes the destination for a part of the source.
-/
import LinkerOvs.Flows.HashFields

namespace LinkerOvs.Flows

open Cls List

/-! ## The other direction -/

/-- Where a byte of the flow in the other direction comes from. -/
def reverseOfs (k : Nat) : Nat :=
  if 432 ≤ k ∧ k < 438 then k + 6
  else if 438 ≤ k ∧ k < 444 then k - 6
  else if 464 ≤ k ∧ k < 468 then k + 4
  else if 468 ≤ k ∧ k < 472 then k - 4
  else if 472 ≤ k ∧ k < 488 then k + 16
  else if 488 ≤ k ∧ k < 504 then k - 16
  else if 544 ≤ k ∧ k < 546 then k + 2
  else if 546 ≤ k ∧ k < 548 then k - 2
  else k

/-- The flow with source and destination exchanged, of Ethernet, IPv4, IPv6 and transport. -/
def reverse (f : Flow) : Flow := fun i =>
  (BitVec.iunfoldr (fun j (_ : Unit) => ((), (byte f (reverseOfs (8 * i + j / 8))).toBitVec.getLsbD (j % 8))) ()).2

variable {f : Flow} {x y : Field}

theorem getLsbD_reverse (f : Flow) (i : Fin flowU64s) {b : Nat} (hb : b < 64) :
    (reverse f i).getLsbD b = (byte f (reverseOfs (8 * i + b / 8))).toBitVec.getLsbD (b % 8) :=
  BitVec.iunfoldr_getLsbD (fun _ => ()) ⟨b, hb⟩ fun _ => rfl

theorem byte_reverse (f : Flow) {k : Nat} (hk : k < 8 * flowU64s) : byte (reverse f) k = byte f (reverseOfs k) := by
  refine UInt8.toBitVec_inj.1 (BitVec.eq_of_getLsbD_eq fun j hj => ?_)
  have hofs : 8 * (k / 8) + (8 * (k % 8) + j) / 8 = k := by omega
  have hbit : (8 * (k % 8) + j) % 8 = j := by omega
  rw [getLsbD_byte _ (by omega) hj, getLsbD_reverse f _ (by omega)]
  simp only [hofs, hbit]

/-- The first `n` bytes of `x` in the other direction are those of `y`. -/
@[reducible] def Exchanged (x y : Field) (n : Nat) : Prop :=
  ∀ k < n, x.ofs + k < 8 * flowU64s ∧ reverseOfs (x.ofs + k) = y.ofs + k

theorem Exchanged.byte_eq {n k : Nat} (h : Exchanged x y n) (hk : k < n) :
    byte (reverse f) (x.ofs + k) = byte f (y.ofs + k) := by
  rw [byte_reverse f (h k hk).1, (h k hk).2]

theorem Exchanged.bytes_eq (h : Exchanged x y x.size) (hsize : x.size = y.size) : bytes (reverse f) x = bytes f y := by
  rw [bytes, bytes, ← hsize]
  exact map_congr_left fun k hk => h.byte_eq (mem_range.1 hk)

theorem Exchanged.load16_eq (h : Exchanged x y 2) : load16 (reverse f) x = load16 f y :=
  congrArg₂ loadBe16 (h.byte_eq Nat.two_pos) (h.byte_eq Nat.one_lt_two)

theorem Exchanged.load32_eq (h : Exchanged x y 4) : load32 (reverse f) x = load32 f y := by
  have h0 := h.byte_eq (f := f) (k := 0) (by decide)
  rw [load32, load32, ← h.byte_eq (by decide), ← h.byte_eq (by decide), ← h.byte_eq (by decide)]
  exact congrArg (loadBe32 · _ _ _) h0

theorem flowU64Value_reverse {i j : Nat}
    (h : i < flowU64s ∧ j < flowU64s ∧ ∀ k < 8, reverseOfs (8 * i + k) = 8 * j + k) :
    flowU64Value (reverse f) i = flowU64Value f j := by
  obtain ⟨hi, hj, h⟩ := h
  rw [flowU64Value, flowU64Value, dif_pos hi, dif_pos hj]
  refine BitVec.eq_of_getLsbD_eq fun b hb => ?_
  have hword : (8 * j + b / 8) / 8 = j := by omega
  have hbit : 8 * ((8 * j + b / 8) % 8) + b % 8 = b := by omega
  rw [getLsbD_reverse f _ hb, h (b / 8) (by omega), getLsbD_byte f (by omega) (by omega)]
  simp only [hword, hbit]

/-! ## The hashes -/

theorem isIpAny_reverse (f : Flow) : isIpAny (reverse f) = isIpAny f :=
  isIpAny_congr (Exchanged.load16_eq (by decide))

theorem nwProto_reverse (f : Flow) : byte (reverse f) Field.nwProto.ofs = byte f Field.nwProto.ofs :=
  byte_reverse f (by decide)

theorem ports_reverse (f : Flow) :
    load16 (reverse f) .tpSrc ^^^ load16 (reverse f) .tpDst = load16 f .tpSrc ^^^ load16 f .tpDst := by
  rw [Exchanged.load16_eq (y := .tpDst) (by decide), Exchanged.load16_eq (y := .tpSrc) (by decide), UInt16.xor_comm]

theorem symmetricL4Fields_reverse (f : Flow) : symmetricL4Fields (reverse f) = symmetricL4Fields f := by
  have hbytes : ∀ x y : Field, Exchanged x y x.size → Exchanged y x y.size → x.size = y.size →
      zipWith (· ^^^ ·) (bytes (reverse f) x) (bytes (reverse f) y) = zipWith (· ^^^ ·) (bytes f x) (bytes f y) := by
    intro x y h h' hsize
    rw [h.bytes_eq hsize, h'.bytes_eq hsize.symm, zipWith_comm_of_comm UInt8.xor_comm]
  unfold symmetricL4Fields
  rw [isIpAny_reverse, nwProto_reverse, ports_reverse, hbytes .nwSrc .nwDst (by decide) (by decide) rfl,
    hbytes .ipv6Src .ipv6Dst (by decide) (by decide) rfl, hbytes .dlSrc .dlDst (by decide) (by decide) rfl,
    Exchanged.load16_eq (x := .dlType) (y := .dlType) (by decide),
    Exchanged.load16_eq (x := .vlanTci) (y := .vlanTci) (by decide)]

/-- The words of the source address are those of the destination. -/
def SameAddrs (f : Flow) : Prop :=
  ∀ i < 2, flowU64Value f (Field.ipv6Src.u64Offset + i) = flowU64Value f (Field.ipv6Dst.u64Offset + i)

variable (H : HashFns)

theorem hashProtoAndPorts_reverse (f : Flow) (hash basis : UInt32) (incUdpPorts : Bool) :
    hashProtoAndPorts H (reverse f) hash basis incUdpPorts = hashProtoAndPorts H f hash basis incUdpPorts := by
  unfold hashProtoAndPorts
  rw [nwProto_reverse, ports_reverse]

/-- The loop over the flow in the other direction: its last two words are of the source and of what is behind the
destination. -/
theorem hashIpv6Addrs_reverse (f : Flow) (basis : UInt32) : hashIpv6Addrs H (reverse f) basis =
    [flowU64Value f 59 ^^^ flowU64Value f 61, flowU64Value f 60 ^^^ flowU64Value f 62,
      flowU64Value f 59 ^^^ flowU64Value f 63, flowU64Value f 60 ^^^ flowU64Value f 64].foldl H.add64 basis := by
  rw [BitVec.xor_comm (flowU64Value f 59) (flowU64Value f 61), BitVec.xor_comm (flowU64Value f 60) (flowU64Value f 62),
    ← flowU64Value_reverse (f := f) (i := 59) (j := 61) (by decide),
    ← flowU64Value_reverse (f := f) (i := 60) (j := 62) (by decide),
    ← flowU64Value_reverse (f := f) (i := 61) (j := 59) (by decide),
    ← flowU64Value_reverse (f := f) (i := 62) (j := 60) (by decide),
    ← flowU64Value_reverse (f := f) (i := 63) (j := 63) (by decide),
    ← flowU64Value_reverse (f := f) (i := 64) (j := 64) (by decide)]
  rfl

/-- A hash that tells where the word `a` was among those added. -/
def marks (a : BitVec 64) : HashFns where
  add64 hash x := 2 * hash + (x == a).toUInt32
  finish hash _ := hash
  add hash _ := hash
  jhashBytes _ basis := basis

theorem sameAddrs_of_marks (h : ∀ a, hashIpv6Addrs (marks a) (reverse f) 0 = hashIpv6Addrs (marks a) f 0) :
    SameAddrs f := by
  have hbits : ∀ p q r s r' s' : Bool, 2 * (2 * (2 * (2 * 0 + p.toUInt32) + q.toUInt32) + r.toUInt32) + s.toUInt32 =
      2 * (2 * (2 * (2 * 0 + p.toUInt32) + q.toUInt32) + r'.toUInt32) + s'.toUInt32 → r = r' ∧ s = s' := by decide
  simp only [hashIpv6Addrs_reverse] at h
  -- the third word and the fourth one
  have h3 : (flowU64Value f 59 ^^^ flowU64Value f 63 == _) = (flowU64Value f 61 ^^^ flowU64Value f 63 == _) :=
    (hbits _ _ _ _ _ _ (h (flowU64Value f 61 ^^^ flowU64Value f 63))).1
  have h4 : (flowU64Value f 60 ^^^ flowU64Value f 64 == _) = (flowU64Value f 62 ^^^ flowU64Value f 64 == _) :=
    (hbits _ _ _ _ _ _ (h (flowU64Value f 62 ^^^ flowU64Value f 64))).2
  rw [beq_self_eq_true, beq_iff_eq, BitVec.xor_left_inj] at h3 h4
  intro i hi
  interval_cases i
  · exact h3
  · exact h4

/-- Both directions of a flow have the same L4 hash; its L3 and L4 hash is the same for every hash function when and
only when the addresses of an IPv6 flow are. -/
theorem flow_hash_symmetric_reverse (f : Flow) :
    (∀ H basis, flowHashSymmetricL4 H (reverse f) basis = flowHashSymmetricL4 H f basis) ∧
    ((∀ H basis incUdpPorts, flowHashSymmetricL3l4 H (reverse f) basis incUdpPorts =
        flowHashSymmetricL3l4 H f basis incUdpPorts) ↔
      (load16 f .dlType = htons ethTypeIpv6 → SameAddrs f)) := by
  have htype : load16 (reverse f) .dlType = load16 f .dlType := Exchanged.load16_eq (by decide)
  refine ⟨fun H basis => by rw [flowHashSymmetricL4, symmetricL4Fields_reverse, flowHashSymmetricL4], ?_, ?_⟩
  · intro h hip
    refine sameAddrs_of_marks fun a => ?_
    have hne : load16 f .dlType ≠ htons ethTypeIp := by rw [hip]; decide
    have ha := h (marks a) 0 false
    rw [flowHashSymmetricL3l4, flowHashSymmetricL3l4, htype, if_neg hne, if_neg hne, if_pos hip, if_pos hip,
      hashProtoAndPorts_reverse] at ha
    simpa [hashProtoAndPorts, marks] using ha
  · intro h H basis incUdpPorts
    have haddr : load32 (reverse f) .nwSrc ^^^ load32 (reverse f) .nwDst = load32 f .nwSrc ^^^ load32 f .nwDst := by
      rw [Exchanged.load32_eq (y := .nwDst) (by decide), Exchanged.load32_eq (y := .nwSrc) (by decide), UInt32.xor_comm]
    rw [flowHashSymmetricL3l4, flowHashSymmetricL3l4, htype, haddr, hashProtoAndPorts_reverse,
      hashProtoAndPorts_reverse]
    split
    · rfl
    split
    · next hip =>
      have h3 : flowU64Value f 59 ^^^ flowU64Value f 63 = flowU64Value f 61 ^^^ flowU64Value f 63 :=
        congrArg (· ^^^ _) (h hip 0 Nat.two_pos)
      have h4 : flowU64Value f 60 ^^^ flowU64Value f 64 = flowU64Value f 62 ^^^ flowU64Value f 64 :=
        congrArg (· ^^^ _) (h hip 1 Nat.one_lt_two)
      rw [hashIpv6Addrs_reverse, h3, h4]
      rfl
    · rfl

/-- An IPv6 flow from an address other than its destination. -/
def ipv6Flow : Flow := fun i => if i.val = 55 then 0xdd8600000000 else if i.val = 59 then 1 else 0

theorem ipv6Flow_hash_reverse : load16 ipv6Flow .dlType = htons ethTypeIpv6 ∧
    flowHashSymmetricL3l4 (portableHash fun _ _ => 0) (reverse ipv6Flow) 0 false ≠
      flowHashSymmetricL3l4 (portableHash fun _ _ => 0) ipv6Flow 0 false := by
  decide +kernel

end LinkerOvs.Flows
