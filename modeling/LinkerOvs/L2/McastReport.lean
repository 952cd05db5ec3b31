/-
Reading membership reports out of a packet (`mcast_snooping_add_report` and `mcast_snooping_add_mld` in
`lib/mcast-snooping.c`). Every header and record is fetched with `dp_packet_at`, which gives `NULL` for one that the
packet does not hold. A record that is not there ends a loop; the address of an MLD report or done message is handed on
as it was fetched.
-/
import LinkerOvs.Lib.Bytes
import LinkerOvs.Lib.Outcome
import LinkerOvs.Packet.DpPacket
import LinkerOvs.Packet.Protocols
import LinkerOvs.L2.McastSnooping

namespace LinkerOvs.L2

/-! ## Pointers into a packet -/

/-- A read through a `NULL` pointer, or of bytes that are not in the packet. -/
inductive ReadFault
  | null
  | outside
deriving DecidableEq, Repr

/-- As an offset into the packet; `none` is `NULL`. -/
def dpPacketAt (p : DpPacket) (offset size : Nat) : Option Nat := (p.at? offset size).map fun _ => offset

/-- The number in `n` bytes of a structure, in network byte order. -/
def loadNum (p : DpPacket) (ptr : Option Nat) (ofs n : Nat) : Except ReadFault Nat :=
  match ptr with
  | none => .error .null
  | some base =>
    match p.at? (base + ofs) n with
    | none => .error .outside
    | some bs => .ok (Bytes.num bs)

/-- The `struct in6_addr` that a pointer points to. -/
def loadIn6Addr (p : DpPacket) (ptr : Option Nat) (ofs : Nat) : Except ReadFault In6Addr := do
  let n ← loadNum p ptr ofs 16
  .ok (BitVec.ofNat 128 n)

/-! ## The functions -/

def igmpv3HeaderLen : Nat := 8
def igmpv3RecordLen : Nat := 8
def mldHeaderLen : Nat := 8
def mld2RecordLen : Nat := 20

def igmpv3ModeIsInclude : Nat := 1
def igmpv3ChangeToIncludeMode : Nat := 3
def igmpv3BlockOldSources : Nat := 6

def KnownRecord (type : Nat) : Prop := igmpv3ModeIsInclude ≤ type ∧ type ≤ igmpv3BlockOldSources

instance (type : Nat) : Decidable (KnownRecord type) := inferInstanceAs (Decidable (_ ∧ _))

/-- An include mode record without sources, which is equivalent to a leave. -/
def LeaveRecord (type nsrcs : Nat) : Prop :=
  nsrcs = 0 ∧ (type = igmpv3ModeIsInclude ∨ type = igmpv3ChangeToIncludeMode)

instance (type nsrcs : Nat) : Decidable (LeaveRecord type nsrcs) := inferInstanceAs (Decidable (_ ∧ _))

section

variable (ms : McastSnooping) (vlan : UInt16) (port : Nat) (now : Int)

/-- `mcast_snooping_add_group` on the address behind a pointer, and whether the group is new. -/
def mcastSnoopingAddGroup (addr : Except ReadFault In6Addr) : Except ReadFault (McastSnooping × Bool) :=
  if (ms.mrouterLookup vlan port).isSome || port ∈ ms.fportList then .ok (ms, false)
  else do
    let addr ← addr
    .ok (ms.addGroup addr vlan port now, (ms.lookup addr vlan).isNone)

/-- `mcast_snooping_leave_group` on the address behind a pointer, and whether the port has left. -/
def mcastSnoopingLeaveGroup (addr : Except ReadFault In6Addr) : Except ReadFault (McastSnooping × Bool) :=
  if port ∈ ms.rportList then .ok (ms, false)
  else do
    let addr ← addr
    .ok (ms.leaveGroup addr vlan port, (ms.lookup addr vlan).any fun grp => grp.bundleLru.any (·.port = port))

/-- What a known record says. -/
def mcastSnoopingRecord (type nsrcs : Nat) (addr : In6Addr) : Except ReadFault (McastSnooping × Bool) :=
  if LeaveRecord type nsrcs then mcastSnoopingLeaveGroup ms vlan port (.ok addr)
  else mcastSnoopingAddGroup ms vlan port now (.ok addr)

end

section

variable (p : DpPacket) (vlan : UInt16) (port : Nat) (now : Int)

/-- The loop of `mcast_snooping_add_report`, with the number of groups left and the offset. A record of an unknown type
is not passed. -/
def reportLoop : Nat → Nat → McastSnooping → Nat → Except ReadFault (McastSnooping × Nat)
  | 0, _, ms, count => .ok (ms, count)
  | ngrp + 1, offset, ms, count =>
    match dpPacketAt p offset igmpv3RecordLen with
    | none => .ok (ms, count)
    | some record => do
      let type ← loadNum p (some record) 0 1
      if KnownRecord type then
        let ip4 ← loadNum p (some record) 4 4
        let nsrcs ← loadNum p (some record) 2 2
        let (ms, ret) ← mcastSnoopingRecord ms vlan port now type nsrcs (in6AddrMappedIpv4 (UInt32.ofNat ip4))
        let auxLen ← loadNum p (some record) 1 1
        reportLoop ngrp (offset + (igmpv3RecordLen + nsrcs * 4 + auxLen)) ms (count + ret.toNat)
      else reportLoop ngrp offset ms count

def mcastSnoopingAddReport (ms : McastSnooping) : Except ReadFault (McastSnooping × Nat) :=
  match p.l4Ofs with
  | none => .error .outside
  | some offset =>
    match dpPacketAt p offset igmpv3HeaderLen with
    | none => .ok (ms, 0)
    | some igmpv3 => do
      let ngrp ← loadNum p (some igmpv3) 6 2
      reportLoop p vlan port now ngrp (offset + igmpv3HeaderLen) ms 0

/-- The loop of `mcast_snooping_add_mld`, which passes a record of an unknown type. -/
def mldLoop : Nat → Nat → McastSnooping → Nat → Except ReadFault (McastSnooping × Nat)
  | 0, _, ms, count => .ok (ms, count)
  | ngrp + 1, offset, ms, count =>
    match dpPacketAt p offset mld2RecordLen with
    | none => .ok (ms, count)
    | some record => do
      let type ← loadNum p (some record) 0 1
      let nsrcs ← loadNum p (some record) 2 2
      let auxLen ← loadNum p (some record) 1 1
      let next := offset + (mld2RecordLen + nsrcs * 16 + auxLen)
      if KnownRecord type then
        let maddr ← loadIn6Addr p (some record) 4
        let (ms, ret) ← mcastSnoopingRecord ms vlan port now type nsrcs maddr
        mldLoop ngrp next ms (count + ret.toNat)
      else mldLoop ngrp next ms count

def mcastSnoopingAddMld (ms : McastSnooping) : Except ReadFault (McastSnooping × Nat) :=
  match p.l4Ofs with
  | none => .error .outside
  | some offset =>
    match dpPacketAt p offset mldHeaderLen with
    | none => .ok (ms, 0)
    | some mld => do
      let ngrp ← loadNum p (some mld) 6 2
      -- fetched here, and not looked at before the type is known
      let addr := dpPacketAt p (offset + mldHeaderLen) 16
      let type ← loadNum p (some mld) 0 1
      if type = mldReport then
        let (ms, ret) ← mcastSnoopingAddGroup ms vlan port now (loadIn6Addr p addr 0)
        .ok (ms, ret.toNat)
      else if type = mldDone then
        let (ms, ret) ← mcastSnoopingLeaveGroup ms vlan port (loadIn6Addr p addr 0)
        .ok (ms, ret.toNat)
      else if type = mld2Report then mldLoop p vlan port now ngrp (offset + mldHeaderLen) ms 0
      else .ok (ms, 0)

end

/-! ## Reads inside the packet -/

section

variable {p : DpPacket} {offset size : Nat}

theorem dpPacketAt_of_le (h : offset + size ≤ p.data.length) : dpPacketAt p offset size = some offset := by
  rw [dpPacketAt, DpPacket.at?, if_pos h, Option.map_some]

theorem dpPacketAt_of_lt (h : p.data.length < offset + size) : dpPacketAt p offset size = none := by
  rw [dpPacketAt, DpPacket.at?, if_neg (not_le.2 h), Option.map_none]

theorem dpPacketAt_eq_some {ptr : Nat} (h : dpPacketAt p offset size = some ptr) :
    ptr = offset ∧ offset + size ≤ p.data.length := by
  by_cases hle : offset + size ≤ p.data.length
  · rw [dpPacketAt_of_le hle] at h
    exact ⟨(Option.some.inj h).symm, hle⟩
  · rw [dpPacketAt_of_lt (not_le.1 hle)] at h
    cases h

theorem loadNum_ok {ptr : Nat} (h : dpPacketAt p offset size = some ptr) (ofs n : Nat) (hfield : ofs + n ≤ size) :
    ∃ v, loadNum p (some ptr) ofs n = .ok v := by
  obtain ⟨rfl, hle⟩ := dpPacketAt_eq_some h
  rw [loadNum, DpPacket.at?, if_pos (by omega)]
  exact ⟨_, rfl⟩

theorem loadIn6Addr_ok {ptr : Nat} (h : dpPacketAt p offset size = some ptr) (ofs : Nat) (hfield : ofs + 16 ≤ size) :
    ∃ a, loadIn6Addr p (some ptr) ofs = .ok a := by
  obtain ⟨v, hv⟩ := loadNum_ok h ofs 16 hfield
  refine ⟨BitVec.ofNat 128 v, ?_⟩
  rw [loadIn6Addr, hv, Except.ok_bind]

end

/-! ## What is done is one record after another -/

section

variable {p : DpPacket} {vlan : UInt16} {port : Nat} {now : Int} {ms : McastSnooping}

/-- The outcome of a reader: the records that it has found in the packet, applied in turn. -/
def AppliesRecords (vlan : UInt16) (port : Nat) (now : Int) (ms : McastSnooping)
    (x : Except ReadFault (McastSnooping × Nat)) : Prop :=
  ∃ (records : List McastRecord) (count : Nat), x = .ok (records.foldl (McastSnooping.applyRecord vlan port now) ms, count)

namespace AppliesRecords

variable {addr : Except ReadFault In6Addr} {f : McastSnooping × Bool → Except ReadFault (McastSnooping × Nat)}

theorem done {count : Nat} : AppliesRecords vlan port now ms (.ok (ms, count)) := ⟨[], count, rfl⟩

theorem cons (r : McastRecord) {x : Except ReadFault (McastSnooping × Nat)}
    (h : AppliesRecords vlan port now (McastSnooping.applyRecord vlan port now ms r) x) :
    AppliesRecords vlan port now ms x := by
  obtain ⟨records, count, h⟩ := h
  exact ⟨r :: records, count, h⟩

theorem read {x : Except ReadFault α} {g : α → Except ReadFault (McastSnooping × Nat)} (hx : ∃ v, x = .ok v)
    (hg : ∀ v, AppliesRecords vlan port now ms (g v)) : AppliesRecords vlan port now ms (x >>= g) := by
  obtain ⟨v, rfl⟩ := hx
  exact hg v

theorem addGroup (haddr : ¬ ((ms.mrouterLookup vlan port).isSome ∨ port ∈ ms.fportList) → ∃ a, addr = .ok a)
    (hf : ∀ ms ret, AppliesRecords vlan port now ms (f (ms, ret))) :
    AppliesRecords vlan port now ms (mcastSnoopingAddGroup ms vlan port now addr >>= f) := by
  rw [mcastSnoopingAddGroup]
  split
  next => exact hf ms false
  next hlooked =>
    obtain ⟨a, rfl⟩ := haddr (by simpa using hlooked)
    exact .cons (.add a) (hf _ _)

theorem leaveGroup (haddr : port ∉ ms.rportList → ∃ a, addr = .ok a)
    (hf : ∀ ms ret, AppliesRecords vlan port now ms (f (ms, ret))) :
    AppliesRecords vlan port now ms (mcastSnoopingLeaveGroup ms vlan port addr >>= f) := by
  rw [mcastSnoopingLeaveGroup]
  split
  next => exact hf ms false
  next hlooked =>
    obtain ⟨a, rfl⟩ := haddr hlooked
    exact .cons (.leave a) (hf _ _)

theorem record {type nsrcs : Nat} {a : In6Addr} (hf : ∀ ms ret, AppliesRecords vlan port now ms (f (ms, ret))) :
    AppliesRecords vlan port now ms (mcastSnoopingRecord ms vlan port now type nsrcs a >>= f) := by
  rw [mcastSnoopingRecord]
  split
  · exact leaveGroup (fun _ => ⟨a, rfl⟩) hf
  · exact addGroup (fun _ => ⟨a, rfl⟩) hf

end AppliesRecords

theorem reportLoop_applies : ∀ (ngrp offset : Nat) (ms : McastSnooping) (count : Nat),
    AppliesRecords vlan port now ms (reportLoop p vlan port now ngrp offset ms count)
  | 0, _, _, _ => .done
  | ngrp + 1, offset, ms, count => by
    rw [reportLoop]
    cases hrecord : dpPacketAt p offset igmpv3RecordLen with
    | none => exact .done
    | some record =>
      refine .read (loadNum_ok hrecord 0 1 (by decide)) fun type => ?_
      split
      · refine .read (loadNum_ok hrecord 4 4 (by decide)) fun ip4 => ?_
        refine .read (loadNum_ok hrecord 2 2 (by decide)) fun nsrcs => .record fun ms ret => ?_
        exact .read (loadNum_ok hrecord 1 1 (by decide)) fun auxLen => reportLoop_applies ngrp _ ms _
      · exact reportLoop_applies ngrp _ ms _

theorem mldLoop_applies : ∀ (ngrp offset : Nat) (ms : McastSnooping) (count : Nat),
    AppliesRecords vlan port now ms (mldLoop p vlan port now ngrp offset ms count)
  | 0, _, _, _ => .done
  | ngrp + 1, offset, ms, count => by
    rw [mldLoop]
    cases hrecord : dpPacketAt p offset mld2RecordLen with
    | none => exact .done
    | some record =>
      refine .read (loadNum_ok hrecord 0 1 (by decide)) fun type => ?_
      refine .read (loadNum_ok hrecord 2 2 (by decide)) fun nsrcs => ?_
      refine .read (loadNum_ok hrecord 1 1 (by decide)) fun auxLen => ?_
      split
      · refine .read (loadIn6Addr_ok hrecord 4 (by decide)) fun maddr => .record fun ms ret => ?_
        exact mldLoop_applies ngrp _ ms _
      · exact mldLoop_applies ngrp _ ms _

theorem mcastSnoopingAddReport_applies (vlan : UInt16) (port : Nat) (now : Int) {offset : Nat}
    (hofs : p.l4Ofs = some offset) (ms : McastSnooping) :
    AppliesRecords vlan port now ms (mcastSnoopingAddReport p vlan port now ms) := by
  rw [mcastSnoopingAddReport, hofs]
  dsimp only
  cases hheader : dpPacketAt p offset igmpv3HeaderLen with
  | none => exact .done
  | some igmpv3 => exact .read (loadNum_ok hheader 6 2 (by decide)) fun ngrp => reportLoop_applies ngrp _ _ _

def mldTypeAt (p : DpPacket) (offset : Nat) : Nat := (p.byteAt offset).toNat

/-- The message is a report or a done message whose header is in the packet and whose address is not, on a port for
which the address is looked at. -/
def AddressCutOff (p : DpPacket) (offset : Nat) (ms : McastSnooping) (vlan : UInt16) (port : Nat) : Prop :=
  offset + mldHeaderLen ≤ p.data.length ∧ p.data.length < offset + mldHeaderLen + 16 ∧
    (mldTypeAt p offset = mldReport ∧ ¬ ((ms.mrouterLookup vlan port).isSome ∨ port ∈ ms.fportList) ∨
      mldTypeAt p offset = mldDone ∧ port ∉ ms.rportList)

instance (p : DpPacket) (offset : Nat) (ms : McastSnooping) (vlan : UInt16) (port : Nat) :
    Decidable (AddressCutOff p offset ms vlan port) :=
  inferInstanceAs (Decidable (_ ∧ _))

theorem loadNum_type {offset : Nat} (h : offset + mldHeaderLen ≤ p.data.length) :
    loadNum p (some offset) 0 1 = .ok (mldTypeAt p offset) := by
  unfold mldHeaderLen at h
  have hbytes : (p.data.drop offset).take 1 = [p.byteAt offset] := by
    rw [List.take_one, List.head?_drop, DpPacket.byteAt, List.getD_eq_getElem?_getD,
      List.getElem?_eq_getElem (by omega)]
    rfl
  rw [loadNum, DpPacket.at?, if_pos (by omega), Nat.add_zero, hbytes]
  simp [Bytes.num, mldTypeAt]

theorem mcastSnoopingAddMld_of_header (vlan : UInt16) (port : Nat) (now : Int) {offset : Nat} (hofs : p.l4Ofs = some offset)
    (hheader : offset + mldHeaderLen ≤ p.data.length) (ms : McastSnooping) :
    ∃ ngrp, mcastSnoopingAddMld p vlan port now ms =
      let addr := loadIn6Addr p (dpPacketAt p (offset + mldHeaderLen) 16) 0
      if mldTypeAt p offset = mldReport then do
        let (ms, ret) ← mcastSnoopingAddGroup ms vlan port now addr
        .ok (ms, ret.toNat)
      else if mldTypeAt p offset = mldDone then do
        let (ms, ret) ← mcastSnoopingLeaveGroup ms vlan port addr
        .ok (ms, ret.toNat)
      else if mldTypeAt p offset = mld2Report then mldLoop p vlan port now ngrp (offset + mldHeaderLen) ms 0
      else .ok (ms, 0) := by
  have hat := dpPacketAt_of_le hheader
  obtain ⟨ngrp, hngrp⟩ := loadNum_ok hat 6 2 (by decide)
  refine ⟨ngrp, ?_⟩
  rw [mcastSnoopingAddMld, hofs]
  dsimp only
  rw [hat]
  dsimp only
  rw [hngrp, Except.ok_bind, loadNum_type hheader, Except.ok_bind]

theorem mcastSnoopingAddMld_applies (now : Int) {offset : Nat} (hofs : p.l4Ofs = some offset) {ms : McastSnooping}
    (hwhole : ¬ AddressCutOff p offset ms vlan port) :
    AppliesRecords vlan port now ms (mcastSnoopingAddMld p vlan port now ms) := by
  by_cases hheader : offset + mldHeaderLen ≤ p.data.length
  case neg =>
    rw [mcastSnoopingAddMld, hofs]
    dsimp only
    rw [dpPacketAt_of_lt (not_le.1 hheader)]
    exact .done
  case pos =>
    obtain ⟨ngrp, heq⟩ := mcastSnoopingAddMld_of_header vlan port now hofs hheader ms
    rw [heq]
    -- an address that is looked at is in the packet
    have haddr : mldTypeAt p offset = mldReport ∧ ¬ ((ms.mrouterLookup vlan port).isSome ∨ port ∈ ms.fportList) ∨
        mldTypeAt p offset = mldDone ∧ port ∉ ms.rportList →
        ∃ a, loadIn6Addr p (dpPacketAt p (offset + mldHeaderLen) 16) 0 = .ok a := by
      intro hlooked
      have hle : offset + mldHeaderLen + 16 ≤ p.data.length := by
        by_contra hcut
        exact hwhole ⟨hheader, not_le.1 hcut, hlooked⟩
      rw [dpPacketAt_of_le hle]
      exact loadIn6Addr_ok (dpPacketAt_of_le hle) 0 (by decide)
    split
    next htype => exact .addGroup (fun hlooked => haddr (.inl ⟨htype, hlooked⟩)) fun _ _ => .done
    split
    next htype => exact .leaveGroup (fun hlooked => haddr (.inr ⟨htype, hlooked⟩)) fun _ _ => .done
    split
    · exact mldLoop_applies ngrp _ _ _
    · exact .done

theorem mcastSnoopingAddMld_null {offset : Nat} (hofs : p.l4Ofs = some offset) {ms : McastSnooping}
    (hcut : AddressCutOff p offset ms vlan port) : mcastSnoopingAddMld p vlan port now ms = .error .null := by
  obtain ⟨hheader, haddr, hlooked⟩ := hcut
  obtain ⟨ngrp, heq⟩ := mcastSnoopingAddMld_of_header vlan port now hofs hheader ms
  rw [heq, dpPacketAt_of_lt haddr]
  rcases hlooked with ⟨htype, hport⟩ | ⟨htype, hport⟩
  · rw [if_pos htype, mcastSnoopingAddGroup, if_neg (by simpa using hport)]
    rfl
  have hreport : mldTypeAt p offset ≠ mldReport := by
    rw [htype]
    decide
  rw [if_neg hreport, if_pos htype, mcastSnoopingLeaveGroup, if_neg hport]
  rfl

/-- On a packet whose L4 offset is set, a membership report is always read inside the packet, and an MLD message just
when its address is not cut off. -/
theorem mcastReports_inside_iff (data : List UInt8) (l4Ofs l2PadSize : Nat) (ms : McastSnooping) (vlan : UInt16)
    (port : Nat) (now : Int) :
    let p : DpPacket := { data := data, l4Ofs := some l4Ofs, l2PadSize := l2PadSize }
    (∃ result, mcastSnoopingAddReport p vlan port now ms = .ok result) ∧
      ((∃ result, mcastSnoopingAddMld p vlan port now ms = .ok result) ↔ ¬ AddressCutOff p l4Ofs ms vlan port) := by
  intro p
  constructor
  · obtain ⟨records, count, h⟩ := mcastSnoopingAddReport_applies (p := p) vlan port now rfl ms
    exact ⟨_, h⟩
  constructor
  · rintro ⟨result, h⟩ hcut
    rw [mcastSnoopingAddMld_null rfl hcut] at h
    cases h
  · intro hwhole
    obtain ⟨records, count, h⟩ := mcastSnoopingAddMld_applies (p := p) now rfl hwhole
    exact ⟨_, h⟩

/-- An MLD report that ends behind its header, on a table that knows nothing: the group is looked up at `NULL`. -/
theorem shortMldReport_null : let p : DpPacket :=
      { data := List.replicate 54 0 ++ [131, 0, 0, 0, 0, 0, 0, 0], l4Ofs := some 54, l2PadSize := 0 }
    let ms : McastSnooping := ⟨[], [], [], [], 300, 2048, false⟩
    mcastSnoopingAddMld p 0 1 0 ms = .error .null := by
  rfl

end

end LinkerOvs.L2
