/-
The members of a `struct flow` (`lib/flow.h`) as stretches of its bytes, reading them, and the wildcards that
`WC_MASK_FIELD` sets for them.
-/
import LinkerOvs.Classifier.FlowBits

namespace LinkerOvs.Flows

open Cls

/-! ## Members -/

/-- A member of `struct flow`, by `offsetof` and `sizeof`. -/
structure Field where
  ofs : Nat
  size : Nat
deriving DecidableEq, Repr

namespace Field

def tunIpDst : Field := ⟨0, 4⟩
def tunIpv6Dst : Field := ⟨4, 16⟩
def tunIpSrc : Field := ⟨20, 4⟩
def tunIpv6Src : Field := ⟨24, 16⟩
def tunId : Field := ⟨40, 8⟩
def tunFlags : Field := ⟨48, 2⟩
def tunIpTos : Field := ⟨50, 1⟩
def tunIpTtl : Field := ⟨51, 1⟩
def tunTpSrc : Field := ⟨52, 2⟩
def tunTpDst : Field := ⟨54, 2⟩
def tunGbpId : Field := ⟨56, 2⟩
def tunGbpFlags : Field := ⟨58, 1⟩
def tunMetadata : Field := ⟨64, 272⟩
def tunPresentMap : Field := ⟨64, 8⟩
def tunPresentLen : Field := ⟨64, 1⟩
def tunOpts : Field := ⟨80, 256⟩
def skbPriority : Field := ⟨376, 4⟩
def pktMark : Field := ⟨380, 4⟩
def dpHash : Field := ⟨384, 4⟩
def inPort : Field := ⟨388, 4⟩
def recircId : Field := ⟨392, 4⟩
def ctState : Field := ⟨396, 2⟩
def ctZone : Field := ⟨398, 2⟩
def ctMark : Field := ⟨400, 4⟩
def pad1 : Field := ⟨404, 4⟩
def ctLabel : Field := ⟨408, 16⟩
def dlDst : Field := ⟨432, 6⟩
def dlSrc : Field := ⟨438, 6⟩
def dlType : Field := ⟨444, 2⟩
def vlanTci : Field := ⟨446, 2⟩
def mplsLse : Field := ⟨448, 16⟩
def nwSrc : Field := ⟨464, 4⟩
def nwDst : Field := ⟨468, 4⟩
def ipv6Src : Field := ⟨472, 16⟩
def ipv6Dst : Field := ⟨488, 16⟩
def ipv6Label : Field := ⟨504, 4⟩
def nwFrag : Field := ⟨508, 1⟩
def nwTos : Field := ⟨509, 1⟩
def nwTtl : Field := ⟨510, 1⟩
def nwProto : Field := ⟨511, 1⟩
def ndTarget : Field := ⟨512, 16⟩
def arpSha : Field := ⟨528, 6⟩
def arpTha : Field := ⟨534, 6⟩
def tcpFlags : Field := ⟨540, 2⟩
def tpSrc : Field := ⟨544, 2⟩
def tpDst : Field := ⟨546, 2⟩
def igmpGroupIp4 : Field := ⟨548, 4⟩

/-- `mpls_lse[i]`. -/
def mplsLseAt (i : Nat) : Field := ⟨448 + 4 * i, 4⟩

/-- `FLOW_U64_OFFSET`. -/
def u64Offset (x : Field) : Nat := x.ofs / 8

/-- `FLOW_U64_SIZE`. -/
def u64Size (x : Field) : Nat := (x.ofs % 8 + x.size + 7) / 8

end Field

/-! ## Reading -/

def byte (f : Flow) (ofs : Nat) : UInt8 :=
  if h : ofs / 8 < flowU64s then ⟨(f ⟨ofs / 8, h⟩ >>> (8 * (ofs % 8))).setWidth 8⟩ else 0

def bytes (f : Flow) (x : Field) : List UInt8 := (List.range x.size).map fun k => byte f (x.ofs + k)

/-- A member of two bytes, as the machine word it is. -/
def load16 (f : Flow) (x : Field) : UInt16 := loadBe16 (byte f x.ofs) (byte f (x.ofs + 1))

/-- A member of four bytes, as the machine word it is. -/
def load32 (f : Flow) (x : Field) : UInt32 :=
  loadBe32 (byte f x.ofs) (byte f (x.ofs + 1)) (byte f (x.ofs + 2)) (byte f (x.ofs + 3))

def flowU64Value (f : Flow) (index : Nat) : BitVec 64 := if h : index < flowU64s then f ⟨index, h⟩ else 0

variable {j : Nat} {x : Field} {f f' w : Flow}

theorem getLsbD_byte (f : Flow) {ofs : Nat} (h : ofs / 8 < flowU64s) (hj : j < 8) :
    (byte f ofs).toBitVec.getLsbD j = (f ⟨ofs / 8, h⟩).getLsbD (8 * (ofs % 8) + j) := by
  simp [byte, h, hj]

theorem getLsbD_loadBe16 (b₀ b₁ : UInt8) (hj : j < 16) : (loadBe16 b₀ b₁).toBitVec.getLsbD j =
      if j < 8 then b₀.toBitVec.getLsbD j else b₁.toBitVec.getLsbD (j - 8) := by
  by_cases h : j < 8
  · simp [loadBe16, h, hj]
  · simp [loadBe16, hj, BitVec.getLsbD_of_ge b₀.toBitVec j (by omega)]

theorem getLsbD_load16 (f : Flow) (hx : x.ofs % 8 < 7 ∧ x.ofs / 8 < flowU64s) (hj : j < 16) :
    (load16 f x).toBitVec.getLsbD j = (f ⟨x.ofs / 8, hx.2⟩).getLsbD (8 * (x.ofs % 8) + j) := by
  rw [load16, getLsbD_loadBe16 _ _ hj]
  split
  · next h => rw [getLsbD_byte f hx.2 h]
  have hword : (x.ofs + 1) / 8 = x.ofs / 8 := by omega
  rw [getLsbD_byte f (hword ▸ hx.2) (by omega)]
  congr 1
  · simp [*]
  · omega

theorem bytes_eq (h : ∀ k, x.ofs ≤ k → k < x.ofs + x.size → byte f k = byte f' k) : bytes f x = bytes f' x := by
  refine List.map_congr_left fun k hk => h _ (Nat.le_add_right _ _) ?_
  simp_all

theorem load16_eq (h : ∀ k, x.ofs ≤ k → k < x.ofs + 2 → byte f k = byte f' k) : load16 f x = load16 f' x := by
  rw [load16, load16, h x.ofs le_rfl (by omega), h (x.ofs + 1) (by omega) (by omega)]

theorem load32_eq (h : ∀ k, x.ofs ≤ k → k < x.ofs + 4 → byte f k = byte f' k) : load32 f x = load32 f' x := by
  rw [load32, load32, h x.ofs le_rfl (by omega), h (x.ofs + 1) (by omega) (by omega),
    h (x.ofs + 2) (by omega) (by omega), h (x.ofs + 3) (by omega) (by omega)]

/-! ## Wildcards -/

/-- The bytes of word `i` that are among the `n` bytes at `ofs`. -/
def bytesMask (i ofs n : Nat) : BitVec 64 :=
  (BitVec.allOnes 64 <<< (8 * (ofs - 8 * i))) &&& (BitVec.allOnes 64 >>> (64 - 8 * (ofs + n - 8 * i)))

/-- `memset` of a stretch of the masks with `0xff`. -/
def wcMask (wc : Flow) (ofs n : Nat) : Flow := fun i => wc i ||| bytesMask i.val ofs n

def wcMaskField (wc : Flow) (x : Field) : Flow := wcMask wc x.ofs x.size

/-- `WC_MASK_FIELD_MASK` for a member of two bytes. -/
def wcMaskFieldMask (wc : Flow) (x : Field) (mask : UInt16) : Flow :=
  fun i => wc i ||| if i.val = x.ofs / 8 then mask.toBitVec.setWidth 64 <<< (8 * (x.ofs % 8)) else 0

theorem getLsbD_bytesMask (i ofs n : Nat) (hj : j < 64) :
    (bytesMask i ofs n).getLsbD j = decide (ofs ≤ 8 * i + j / 8 ∧ 8 * i + j / 8 < ofs + n) := by
  have hbits : (bytesMask i ofs n).getLsbD j =
      (decide (8 * (ofs - 8 * i) ≤ j) && decide (64 - 8 * (ofs + n - 8 * i) + j < 64)) := by
    rw [bytesMask, BitVec.getLsbD_and, BitVec.getLsbD_shiftLeft, BitVec.getLsbD_ushiftRight, BitVec.getLsbD_allOnes,
      BitVec.getLsbD_allOnes, decide_eq_true hj, Bool.true_and, ← decide_not, ← Bool.decide_and, ← Bool.decide_and,
      ← Bool.decide_and]
    refine decide_eq_decide.2 ?_
    omega
  grind

theorem sub_wcMaskField (wc : Flow) (x : Field) : wc.Sub (wcMaskField wc x) := by
  intro i j hj
  simp [wcMaskField, wcMask, hj]

theorem byte_or (a b : Flow) (k : Nat) : byte (fun i => a i ||| b i) k = byte a k ||| byte b k := by
  unfold byte
  split
  · apply UInt8.toBitVec_inj.1
    apply BitVec.eq_of_getLsbD_eq
    intro j hj
    simp [hj]
  · rfl

theorem byte_bytesMask (ofs n : Nat) {k : Nat} (hk : k / 8 < flowU64s) :
    byte (fun i => bytesMask i.val ofs n) k = if ofs ≤ k ∧ k < ofs + n then 0xff else 0 := by
  apply UInt8.toBitVec_inj.1
  apply BitVec.eq_of_getLsbD_eq
  intro j hj
  rw [getLsbD_byte _ hk hj, getLsbD_bytesMask _ _ _ (by omega), show 8 * (k / 8) + (8 * (k % 8) + j) / 8 = k by omega]
  split
  · next h =>
    rw [decide_eq_true h]
    have hall : ∀ j < 8, (255 : UInt8).toBitVec.getLsbD j = true := by decide
    exact (hall j hj).symm
  · simp [*]

theorem byte_and_of_agrees (h : w.Agrees f f') (k : Nat) : byte f k &&& byte w k = byte f' k &&& byte w k := by
  by_cases hlt : k / 8 < flowU64s
  · apply UInt8.toBitVec_inj.1
    apply BitVec.eq_of_getLsbD_eq
    intro j hj
    rw [UInt8.toBitVec_and, UInt8.toBitVec_and, BitVec.getLsbD_and, BitVec.getLsbD_and, getLsbD_byte f hlt hj,
      getLsbD_byte f' hlt hj, getLsbD_byte w hlt hj]
    cases hw : (w ⟨k / 8, hlt⟩).getLsbD (8 * (k % 8) + j) with
    | false => simp
    | true => rw [Flow.agrees_iff.1 h _ _ hw]
  · simp only [byte, dif_neg hlt]

/-- The flows have the same bits in a member of two bytes where the wildcards have been given some. -/
theorem load16_and_of_agrees {wc : Flow} (hx : x.ofs % 8 < 7 ∧ x.ofs / 8 < flowU64s) {m m' : UInt16}
    (hsub : ∀ j < 16, m'.toBitVec.getLsbD j = true → m.toBitVec.getLsbD j = true)
    (h : (wcMaskFieldMask wc x m).Agrees f f') : load16 f x &&& m' = load16 f' x &&& m' := by
  apply UInt16.toBitVec_inj.1
  apply BitVec.eq_of_getLsbD_eq
  intro j hj
  rw [UInt16.toBitVec_and, UInt16.toBitVec_and, BitVec.getLsbD_and, BitVec.getLsbD_and, getLsbD_load16 f hx hj,
    getLsbD_load16 f' hx hj]
  cases hm : m'.toBitVec.getLsbD j with
  | false => simp
  | true =>
    have hbit : (wcMaskFieldMask wc x m ⟨x.ofs / 8, hx.2⟩).getLsbD (8 * (x.ofs % 8) + j) = true := by
      have hlt : 8 * (x.ofs % 8) + j < 64 := by omega
      simp [wcMaskFieldMask, hsub j hj hm, hlt]
    rw [Flow.agrees_iff.1 h _ _ hbit]

/-- The wildcards have all bits of a member. -/
def Masks (w : Flow) (x : Field) : Prop := ∀ k, x.ofs ≤ k → k < x.ofs + x.size → byte w k = 0xff

theorem Masks.byte_eq (h : Masks w x) (hagree : w.Agrees f f') {k : Nat} (hk : x.ofs ≤ k) (hk' : k < x.ofs + x.size) :
    byte f k = byte f' k := by
  have hand := byte_and_of_agrees hagree k
  rw [h k hk hk'] at hand
  have hall : ∀ b : UInt8, b &&& 255 = b := fun _ => UInt8.and_neg_one
  rwa [hall, hall] at hand

theorem masks_wcMaskField (wc : Flow) (x : Field) (hx : x.ofs + x.size ≤ 8 * flowU64s) : Masks (wcMaskField wc x) x := by
  intro k hk hk'
  have hall : ∀ b : UInt8, b ||| 255 = 255 := fun _ => UInt8.or_neg_one
  have hor := byte_or wc (fun i => bytesMask i.val x.ofs x.size) k
  rw [byte_bytesMask _ _ (by omega), if_pos ⟨hk, hk'⟩, hall] at hor
  exact hor

theorem Masks.sub {w' : Flow} (h : Masks w x) (hsub : w.Sub w') : Masks w' x := by
  intro k hk hk'
  have hff := h k hk hk'
  by_cases hlt : k / 8 < flowU64s
  · apply UInt8.toBitVec_inj.1
    apply BitVec.eq_of_getLsbD_eq
    intro j hj
    have hall : ∀ j < 8, (255 : UInt8).toBitVec.getLsbD j = true := by decide
    rw [getLsbD_byte w' hlt hj, hall j hj]
    refine hsub _ _ ?_
    rw [← getLsbD_byte w hlt hj, hff, hall j hj]
  · rw [byte, dif_neg hlt] at hff
    exact absurd hff (by decide)

end LinkerOvs.Flows
