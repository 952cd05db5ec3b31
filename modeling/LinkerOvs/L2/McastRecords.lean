/-
What a well-formed IGMPv3 or MLDv2 report says (RFC 3376, RFC 3810), against what is done with it. Auxiliary data is
counted in words of four bytes, and both loops pass as many bytes; the loop over IGMPv3 records does not pass a record
of an unknown type at all.
-/
import LinkerOvs.L2.McastReport

namespace LinkerOvs.L2

open Bytes List

/-- A record about a group, with `w` bytes for an address. -/
structure GroupRecord (w : Nat) where
  type : UInt8
  auxLen : UInt8
  nsrcs : List UInt8
  maddr : List UInt8
  sources : List UInt8
  aux : List UInt8
  nsrcs_length : nsrcs.length = 2
  maddr_length : maddr.length = w
  sources_length : sources.length = num nsrcs * w
  aux_length : aux.length = auxLen.toNat * 4

namespace GroupRecord

variable {w : Nat} (r : GroupRecord w)

def bytes : List UInt8 := r.type :: r.auxLen :: (r.nsrcs ++ (r.maddr ++ (r.sources ++ r.aux)))

abbrev Known : Prop := KnownRecord r.type.toNat

/-- An include-mode record without sources leaves its group, every other one of a known type joins it. -/
def meaning (addr : List UInt8 → In6Addr) : Option McastRecord :=
  if r.Known then
    some (if LeaveRecord r.type.toNat (num r.nsrcs) then .leave (addr r.maddr) else .add (addr r.maddr))
  else none

theorem length_bytes : r.bytes.length = 4 + w + num r.nsrcs * w + r.auxLen.toNat * 4 := by
  simp only [bytes, length_cons, length_append, r.nsrcs_length, r.maddr_length, r.sources_length, r.aux_length]
  omega

theorem length_advance (h : r.auxLen = 0) : r.bytes.length = 4 + w + num r.nsrcs * w + r.auxLen.toNat := by
  rw [r.length_bytes, h]
  rfl

end GroupRecord

/-- The group that the address of an IGMPv3 record stands for. -/
def igmpAddr (maddr : List UInt8) : In6Addr := in6AddrMappedIpv4 (UInt32.ofNat (num maddr))

/-- The group that the address of an MLDv2 record stands for. -/
def mldAddr (maddr : List UInt8) : In6Addr := BitVec.ofNat 128 (num maddr)

/-- A reader ends in the table to which the records have been applied in order. -/
def HasEffect (addr : List UInt8 → In6Addr) (vlan : UInt16) (port : Nat) (now : Int) (rs : List (GroupRecord w))
    (ms : McastSnooping) (x : Except ReadFault (McastSnooping × Nat)) : Prop :=
  ∃ count, x = .ok ((rs.filterMap (·.meaning addr)).foldl (McastSnooping.applyRecord vlan port now) ms, count)

/-- A record before another one is of a known type and has no auxiliary data, or both are of unknown types. -/
def PassesReport (rs : List (GroupRecord 4)) : Prop :=
  rs.Pairwise fun r r' => r.Known ∧ r.auxLen = 0 ∨ ¬ r.Known ∧ ¬ r'.Known

/-- No record before another one has auxiliary data. -/
def PassesMld (rs : List (GroupRecord 16)) : Prop := rs.Pairwise fun r _ => r.auxLen = 0

section

variable {p : DpPacket} {vlan : UInt16} {port : Nat} {now : Int} {w o : Nat} {rest : List UInt8}
  {addr : List UInt8 → In6Addr} {r : GroupRecord w} {rs : List (GroupRecord w)} {ms : McastSnooping}

/-! ## Records as they are read -/

theorem loadNum_at {u b v : List UInt8} (h : p.data.drop o = u ++ (b ++ v)) (hne : b ≠ []) :
    loadNum p (some o) u.length b.length = .ok (num b) := by
  have hdrop : p.data.drop (o + u.length) = b ++ v := by rw [← drop_drop, h, drop_left]
  have hlen := congrArg length hdrop
  have hpos := length_pos_iff.2 hne
  rw [length_drop, length_append] at hlen
  rw [loadNum, DpPacket.at?, if_pos (by omega), hdrop, take_left]

theorem GroupRecord.load (hw : w ≠ 0) (h : p.data.drop o = r.bytes ++ rest) :
    dpPacketAt p o (4 + w) = some o ∧ loadNum p (some o) 0 1 = .ok r.type.toNat ∧
      loadNum p (some o) 1 1 = .ok r.auxLen.toNat ∧ loadNum p (some o) 2 2 = .ok (num r.nsrcs) ∧
      loadNum p (some o) 4 w = .ok (num r.maddr) := by
  have hlen := congrArg length h
  rw [length_drop, length_append, r.length_bytes] at hlen
  refine ⟨dpPacketAt_of_le (by omega), ?_, ?_, ?_, ?_⟩
  · exact (loadNum_at (u := []) (b := [r.type]) h (by simp)).trans (by simp [num])
  · exact (loadNum_at (u := [r.type]) (b := [r.auxLen]) h (by simp)).trans (by simp [num])
  · have hread := loadNum_at (u := [r.type, r.auxLen]) (b := r.nsrcs) (v := r.maddr ++ (r.sources ++ (r.aux ++ rest)))
      (h.trans (by simp [bytes])) fun hnil => by simpa [hnil] using r.nsrcs_length
    rwa [r.nsrcs_length] at hread
  · have hread := loadNum_at (u := r.type :: r.auxLen :: r.nsrcs) (b := r.maddr) (v := r.sources ++ (r.aux ++ rest))
      (h.trans (by simp [bytes])) fun hnil => hw (by rw [← r.maddr_length, hnil, length_nil])
    simpa [r.nsrcs_length, r.maddr_length] using hread

theorem HasEffect.unknown {x : Except ReadFault (McastSnooping × Nat)} (hknown : ¬ r.Known)
    (h : HasEffect addr vlan port now rs ms x) : HasEffect addr vlan port now (r :: rs) ms x := by
  unfold HasEffect
  rw [filterMap_cons, GroupRecord.meaning, if_neg hknown]
  exact h

theorem HasEffect.known {f : McastSnooping × Bool → Except ReadFault (McastSnooping × Nat)} (hknown : r.Known)
    (hf : ∀ ms ret, HasEffect addr vlan port now rs ms (f (ms, ret))) : HasEffect addr vlan port now (r :: rs) ms
      (mcastSnoopingRecord ms vlan port now r.type.toNat (num r.nsrcs) (addr r.maddr) >>= f) := by
  unfold HasEffect mcastSnoopingRecord
  rw [filterMap_cons, GroupRecord.meaning, if_pos hknown]
  split
  · unfold mcastSnoopingLeaveGroup
    split
    next hport =>
      rw [foldl_cons, McastSnooping.applyRecord, McastSnooping.leaveGroup, if_pos hport]
      exact hf ms false
    · exact hf _ _
  · unfold mcastSnoopingAddGroup
    split
    next hport =>
      rw [foldl_cons, McastSnooping.applyRecord, McastSnooping.addGroup, if_pos hport]
      exact hf ms false
    · exact hf _ _

/-! ## The loops -/

/-- The loop does not get past a record of an unknown type. -/
theorem reportLoop_unknown {r : GroupRecord 4} (h : p.data.drop o = r.bytes ++ rest) (hknown : ¬ r.Known)
    (ms : McastSnooping) (count : Nat) : ∀ n, reportLoop p vlan port now n o ms count = .ok (ms, count)
  | 0 => rfl
  | n + 1 => by
    obtain ⟨hat, htype, -⟩ := r.load (by decide) h
    rw [reportLoop, show igmpv3RecordLen = 4 + 4 from rfl, hat]
    dsimp only
    rw [htype, Except.ok_bind, if_neg hknown]
    exact reportLoop_unknown h hknown ms count n

theorem reportLoop_hasEffect : ∀ (rs : List (GroupRecord 4)) (o : Nat) (ms : McastSnooping) (count : Nat),
    p.data.drop o = rs.flatMap GroupRecord.bytes ++ rest → PassesReport rs →
    HasEffect igmpAddr vlan port now rs ms (reportLoop p vlan port now rs.length o ms count)
  | [], _, _, count, _, _ => ⟨count, rfl⟩
  | r :: rs, o, ms, count, h, hpass => by
    rw [flatMap_cons, append_assoc] at h
    obtain ⟨hhead, htail⟩ := pairwise_cons.1 hpass
    by_cases hknown : r.Known
    · obtain ⟨hat, htype, haux, hnsrcs, hmaddr⟩ := r.load (by decide) h
      rw [length_cons, reportLoop, show igmpv3RecordLen = 4 + 4 from rfl, hat]
      simp only [htype, hmaddr, hnsrcs, haux, Except.ok_bind, if_pos hknown]
      refine HasEffect.known hknown fun ms ret => ?_
      cases rs with
      | nil => exact ⟨_, rfl⟩
      | cons r' rs =>
        have hzero : r.auxLen = 0 := ((hhead r' mem_cons_self).resolve_right fun hk => hk.1 hknown).2
        refine reportLoop_hasEffect _ _ _ _ ?_ htail
        rw [← drop_drop, h, ← r.length_advance hzero, drop_left]
    · refine ⟨count, ?_⟩
      have hrest : rs.filterMap (·.meaning igmpAddr) = [] :=
        filterMap_eq_nil_iff.2 fun r' hr' => if_neg ((hhead r' hr').resolve_left fun hk => hknown hk.1).2
      rw [reportLoop_unknown h hknown, filterMap_cons, GroupRecord.meaning, if_neg hknown, hrest]
      rfl

theorem mldLoop_hasEffect : ∀ (rs : List (GroupRecord 16)) (o : Nat) (ms : McastSnooping) (count : Nat),
    p.data.drop o = rs.flatMap GroupRecord.bytes ++ rest → PassesMld rs →
    HasEffect mldAddr vlan port now rs ms (mldLoop p vlan port now rs.length o ms count)
  | [], _, _, count, _, _ => ⟨count, rfl⟩
  | r :: rs, o, ms, count, h, hpass => by
    rw [flatMap_cons, append_assoc] at h
    obtain ⟨hhead, htail⟩ := pairwise_cons.1 hpass
    obtain ⟨hat, htype, haux, hnsrcs, hmaddr⟩ := r.load (by decide) h
    -- whatever the record does, the loop goes on behind it if there is another one
    have hgo : ∀ ms count, HasEffect mldAddr vlan port now rs ms
        (mldLoop p vlan port now rs.length (o + (4 + 16 + num r.nsrcs * 16 + r.auxLen.toNat)) ms count) := by
      intro ms count
      cases rs with
      | nil => exact ⟨_, rfl⟩
      | cons r' rs =>
        refine mldLoop_hasEffect _ _ _ _ ?_ htail
        rw [← drop_drop, h, ← r.length_advance (hhead r' mem_cons_self), drop_left]
    rw [length_cons, mldLoop, show mld2RecordLen = 4 + 16 from rfl, hat]
    simp only [htype, hnsrcs, haux, Except.ok_bind]
    by_cases hknown : r.Known
    · simp only [if_pos hknown, loadIn6Addr, hmaddr, Except.ok_bind]
      exact HasEffect.known hknown fun ms ret => hgo ms _
    · simp only [if_neg hknown]
      exact HasEffect.unknown hknown (hgo ms count)

/-! ## Reports -/

/-- A packet with a report: the type, five bytes, the number of records and the records. -/
def reportPacket (front : List UInt8) (type : UInt8) (fields number : List UInt8) (rs : List (GroupRecord w))
    (rest : List UInt8) (l2PadSize : Nat) : DpPacket :=
  ⟨front ++ (type :: (fields ++ (number ++ (rs.flatMap GroupRecord.bytes ++ rest)))), some front.length, l2PadSize⟩

theorem reportPacket_load {type : UInt8} {fields number v : List UInt8}
    (h : p.data.drop o = type :: (fields ++ (number ++ v))) (hfields : fields.length = 5) (hnumber : number.length = 2) :
    dpPacketAt p o 8 = some o ∧ loadNum p (some o) 0 1 = .ok type.toNat ∧
      loadNum p (some o) 6 2 = .ok (num number) ∧ p.data.drop (o + 8) = v := by
  have hlen := congrArg length h
  simp only [length_drop, length_cons, length_append, hfields, hnumber] at hlen
  refine ⟨dpPacketAt_of_le (by omega), ?_, ?_, ?_⟩
  · exact (loadNum_at (u := []) (b := [type]) h (by simp)).trans (by simp [num])
  · have hread := loadNum_at (u := type :: fields) h fun hnil => by simp [hnil] at hnumber
    rwa [length_cons, hfields, hnumber] at hread
  · have hcut : type :: (fields ++ (number ++ v)) = (type :: (fields ++ number)) ++ v := by simp
    rw [← drop_drop, h, hcut, drop_left' (by simp [hfields, hnumber])]

/-- A report whose loop passes every record but the last has the effect of its records in order. -/
theorem mcastReports_hasEffect (front rest : List UInt8) {fields number : List UInt8} (hfields : fields.length = 5)
    (hnumber : number.length = 2) (l2PadSize : Nat) (ms : McastSnooping) (vlan : UInt16) (port : Nat) (now : Int) :
    (∀ (type : UInt8) (rs : List (GroupRecord 4)), num number = rs.length → PassesReport rs →
      HasEffect igmpAddr vlan port now rs ms
        (mcastSnoopingAddReport (reportPacket front type fields number rs rest l2PadSize) vlan port now ms)) ∧
    ∀ rs : List (GroupRecord 16), num number = rs.length → PassesMld rs → HasEffect mldAddr vlan port now rs ms
      (mcastSnoopingAddMld (reportPacket front 143 fields number rs rest l2PadSize) vlan port now ms) := by
  constructor
  · intro type rs hlength hpass
    obtain ⟨hat, -, hngrp, hrecords⟩ := reportPacket_load
      (p := reportPacket front type fields number rs rest l2PadSize) drop_left hfields hnumber
    rw [mcastSnoopingAddReport]
    simp only [reportPacket, igmpv3HeaderLen] at hat hngrp hrecords ⊢
    rw [hat]
    dsimp only
    rw [hngrp, Except.ok_bind, hlength]
    exact reportLoop_hasEffect rs _ ms 0 hrecords hpass
  · intro rs hlength hpass
    obtain ⟨hat, htype, hngrp, hrecords⟩ := reportPacket_load
      (p := reportPacket front 143 fields number rs rest l2PadSize) drop_left hfields hnumber
    rw [mcastSnoopingAddMld]
    simp only [reportPacket, mldHeaderLen] at hat htype hngrp hrecords ⊢
    rw [hat]
    dsimp only
    rw [hngrp, Except.ok_bind, htype, Except.ok_bind, hlength]
    exact mldLoop_hasEffect rs _ ms 0 hrecords hpass

end

/-- A record without sources, with auxiliary data of zeros. -/
def sampleRecord (w : Nat) (type auxLen : UInt8) : GroupRecord w where
  type := type
  auxLen := auxLen
  nsrcs := [0, 0]
  maddr := replicate w 9
  sources := []
  aux := replicate (auxLen.toNat * 4) 0
  nsrcs_length := rfl
  maddr_length := length_replicate
  sources_length := (Nat.zero_mul w).symm
  aux_length := length_replicate

def sampleReport (type : UInt8) (rs : List (GroupRecord w)) : DpPacket := reportPacket [] type [0, 0, 0, 0, 0] [0, 2] rs [] 0

def emptySnooping : McastSnooping := ⟨[], [], [], [], 300, 2048, false⟩

/-- A port joins a group and leaves it. -/
theorem mcastReports_hasEffect_join_leave : let rs := [sampleRecord 4 2 0, sampleRecord 4 1 0]
    HasEffect igmpAddr 0 1 0 rs emptySnooping (mcastSnoopingAddReport (sampleReport 34 rs) 0 1 0 emptySnooping) := by
  refine (mcastReports_hasEffect [] [] rfl rfl 0 emptySnooping 0 1 0).1 34 _ rfl ?_
  exact pairwise_pair.2 (.inl ⟨by decide, rfl⟩)

/-- An IGMPv3 record of an unknown type keeps the port from the group that it joins in the next record, and so does a
word of auxiliary data in an MLDv2 record. -/
theorem mcastReports_stuck :
    ¬ HasEffect igmpAddr 0 1 0 [sampleRecord 4 7 0, sampleRecord 4 2 0] emptySnooping
      (mcastSnoopingAddReport (sampleReport 34 [sampleRecord 4 7 0, sampleRecord 4 2 0]) 0 1 0 emptySnooping) ∧
    ¬ HasEffect mldAddr 0 1 0 [sampleRecord 16 7 1, sampleRecord 16 2 0] emptySnooping
      (mcastSnoopingAddMld (sampleReport 143 [sampleRecord 16 7 1, sampleRecord 16 2 0]) 0 1 0 emptySnooping) := by
  constructor
  all_goals
    rintro ⟨count, h⟩
    have hgroups := congrArg (Except.map fun x => x.1.groupLru.length) h
    exact absurd (Except.ok.inj hgroups) Nat.zero_ne_one

end LinkerOvs.L2
