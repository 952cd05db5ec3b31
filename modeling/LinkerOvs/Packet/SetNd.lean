/-
Rewriting neighbor discovery messages (`packet_set_nd` in `lib/packets.c`, `odp_set_nd` in `lib/odp-execute.c`), on the
bytes between the L4 offset and the end of the L4 data. Both functions walk over the options with a pointer and a
counter of the bytes that are left, and take from the counter the length of the option they have moved on to, not of
the one they have passed.
-/
import Mathlib
import LinkerOvs.Lib.Outcome
import LinkerOvs.Lib.Bytes
import LinkerOvs.Packet.Csum
import LinkerOvs.Packet.Protocols

namespace LinkerOvs.Nd

open List
open Except (ok_bind bind_eq_ok)

/-! ## Access to the L4 data -/

/-- An access outside the L4 data, or a loop that takes more turns than it was given. -/
inductive Fault
  | outside
  | turns
deriving DecidableEq, Repr

section

variable (l4 : List UInt8)

def readAt (p n : Nat) : Except Fault (List UInt8) :=
  if p + n ≤ l4.length then .ok (Bytes.read l4 p n) else .error .outside

def u8At (p : Nat) : Except Fault UInt8 := do
  let bs ← readAt l4 p 1
  .ok (bs.getD 0 0)

def be16At (p : Nat) : Except Fault UInt16 := do
  let bs ← readAt l4 p 2
  .ok (loadBe16 (bs.getD 0 0) (bs.getD 1 0))

def writeAt (p : Nat) (new : List UInt8) : Except Fault (List UInt8) :=
  if p + new.length ≤ l4.length then .ok (Bytes.write l4 p new) else .error .outside

end

/-! ## The functions -/

/-- `ND_MSG_LEN`, the size of `struct ovs_nd_msg`. -/
def ndMsgLen : Nat := 24

/-- `ND_OPT_LEN`, the size of `struct ovs_nd_opt`. -/
def ndOptLen : Nat := 8

def ndOptSourceLinkaddr : UInt8 := 1
def ndOptTargetLinkaddr : UInt8 := 2

/-- What a turn of a loop finds at an option: a link-layer address of the source or of the target, or another one. -/
inductive OptKind
  | source
  | target
  | other
deriving DecidableEq, Repr

def optKind (type len : UInt8) : OptKind :=
  if type = ndOptSourceLinkaddr ∧ len = 1 then .source
  else if type = ndOptTargetLinkaddr ∧ len = 1 then .target
  else .other

/-- The loop over the options, with the pointer and `bytes_remain`: the option it ends at, if that is a link-layer
address, and the options it has been at. -/
def optionLoop (l4 : List UInt8) : Nat → Nat → Int → Except Fault (Option (OptKind × Nat) × List Nat)
  | 0, _, _ => .error .turns
  | turns + 1, ndOpt, bytesRemain =>
    if bytesRemain < ndOptLen then .ok (none, [])
    else do
      let len ← u8At l4 (ndOpt + 1)
      if len = 0 then .ok (none, [])
      else
        let type ← u8At l4 ndOpt
        match optKind type len with
        | .other =>
          -- the pointer has moved on when the length is read again
          let ndOpt' := ndOpt + ndOptLen * len.toNat
          let len' ← u8At l4 (ndOpt' + 1)
          let (found, visited) ← optionLoop l4 turns ndOpt' (bytesRemain - len'.toNat * ndOptLen)
          .ok (found, ndOpt :: visited)
        | kind => .ok (some (kind, ndOpt), [ndOpt])

def options (l4 : List UInt8) : Except Fault (Option (OptKind × Nat) × List Nat) :=
  optionLoop l4 (l4.length + 1) ndMsgLen ((l4.length : Int) - ndMsgLen)

/-- `packet_set_ipv6_addr` for the target of the message: the ICMPv6 checksum at offset 2 and the target at 8. -/
def setTarget (l4 target : List UInt8) : Except Fault (List UInt8) := do
  let old ← readAt l4 8 16
  let csum ← be16At l4 2
  let l4 ← writeAt l4 2 (store16 (recalcCsum128 csum old target))
  writeAt l4 8 target

/-- A link-layer address that is not as it should be. -/
def setMac (l4 : List UInt8) (ndOpt : Nat) (mac : List UInt8) : Except Fault (List UInt8) := do
  let old ← readAt l4 (ndOpt + 2) 6
  if old = mac then .ok l4
  else
    let csum ← be16At l4 2
    let l4 ← writeAt l4 2 (store16 (recalcCsum48 csum old mac))
    writeAt l4 (ndOpt + 2) mac

/-- What is done at the link-layer address that the loop of `packet_set_nd` ends at. -/
def setFoundMac (l4 sll tll : List UInt8) : Option (OptKind × Nat) → Except Fault (List UInt8)
  | some (.source, ndOpt) => setMac l4 ndOpt sll
  | some (.target, ndOpt) => setMac l4 ndOpt tll
  | _ => .ok l4

/-- With the options it has been at. -/
def packetSetNd (l4 target sll tll : List UInt8) : Except Fault (List UInt8 × List Nat) :=
  if l4.length < ndMsgLen then .ok (l4, [])
  else do
    let old ← readAt l4 8 16
    let l4 ← if old = target then .ok l4 else setTarget l4 target
    let (found, visited) ← options l4
    let l4 ← setFoundMac l4 sll tll found
    .ok (l4, visited)

structure OvsKeyNd where
  ndTarget : List UInt8
  ndSll : List UInt8
  ndTll : List UInt8
  ndTarget_length : ndTarget.length = 16
  ndSll_length : ndSll.length = 6
  ndTll_length : ndTll.length = 6

/-- `ether_addr_copy_masked` and `mask_ipv6_addr`, byte by byte. -/
def copyMasked : List UInt8 → List UInt8 → List UInt8 → List UInt8
  | d :: dst, s :: src, m :: mask => (s ||| (d &&& ~~~ m)) :: copyMasked dst src mask
  | _, _, _ => []

/-- What is done at the link-layer address that the loop of `odp_set_nd` ends at: `sll_buf` and `tll_buf`. -/
def maskFoundMac (l4 : List UInt8) (key mask : OvsKeyNd) :
    Option (OptKind × Nat) → Except Fault (List UInt8 × List UInt8)
  | some (.source, ndOpt) => do
    let mac ← readAt l4 (ndOpt + 2) 6
    .ok (copyMasked mac key.ndSll mask.ndSll, ethAddrZero)
  | some (.target, ndOpt) => do
    let mac ← readAt l4 (ndOpt + 2) 6
    .ok (ethAddrZero, copyMasked mac key.ndTll mask.ndTll)
  | _ => .ok (ethAddrZero, ethAddrZero)

/-- With the options that its own loop and that of `packet_set_nd` have been at. -/
def odpSetNd (l4 : List UInt8) (key mask : OvsKeyNd) : Except Fault (List UInt8 × List Nat × List Nat) :=
  if l4.length < ndMsgLen then .ok (l4, [], [])
  else do
    let (found, visited) ← options l4
    let (sll, tll) ← maskFoundMac l4 key mask found
    let old ← readAt l4 8 16
    let (l4, visited') ← packetSetNd l4 (copyMasked old key.ndTarget mask.ndTarget) sll tll
    .ok (l4, visited, visited')

/-! ## The walk by each option's own length -/

section

variable (l4 : List UInt8)

/-- The length field of the option at a place. -/
def lenAt (p : Nat) : UInt8 := l4.getD (p + 1) 0

def kindAt (p : Nat) : OptKind := optKind (l4.getD p 0) (lenAt l4 p)

/-- The place of the option after the one at `p`. -/
def nextAt (p : Nat) : Nat := p + ndOptLen * (lenAt l4 p).toNat

/-- There is an option at `p`: eight bytes of it, with a length. -/
def OptionAt (p : Nat) : Prop := p + ndOptLen ≤ l4.length ∧ lenAt l4 p ≠ 0

instance (p : Nat) : Decidable (OptionAt l4 p) := inferInstanceAs (Decidable (_ ∧ _))

/-- The options from `p` on, up to a link-layer address, each found by the length of the one before it. -/
def walkFrom : Nat → Nat → List Nat
  | 0, _ => []
  | turns + 1, p =>
    if OptionAt l4 p then p :: if kindAt l4 p = .other then walkFrom turns (nextAt l4 p) else [] else []

def walk : List Nat := walkFrom l4 (l4.length + 1) ndMsgLen

/-- The option at `p` is passed as it should be: the header of the next one is inside the data, and the counter, which
is too large by the first option's length and too small by the next one's, says the same about the next one as the
data. -/
def PassedAt (p : Nat) : Prop :=
  nextAt l4 p + 2 ≤ l4.length ∧ (lenAt l4 (nextAt l4 p) ≠ 0 →
    (nextAt l4 p + ndOptLen * (lenAt l4 (nextAt l4 p)).toNat + ndOptLen ≤ l4.length + ndOptLen * (lenAt l4 ndMsgLen).toNat ↔
      nextAt l4 p + ndOptLen ≤ l4.length))

/-- Every option that is not a link-layer address is passed as it should be. -/
def OptionsPassed : Prop := ∀ p ∈ walk l4, kindAt l4 p = .other → PassedAt l4 p

instance (p : Nat) : Decidable (PassedAt l4 p) := inferInstanceAs (Decidable (_ ∧ _))

instance : Decidable (OptionsPassed l4) := inferInstanceAs (Decidable (∀ _, _))

end

variable {l4 : List UInt8}

theorem u8At_eq (p : Nat) : u8At l4 p = if p + 1 ≤ l4.length then .ok (l4.getD p 0) else .error .outside := by
  unfold u8At readAt
  split
  · simp [Bytes.read]
  · rfl

variable {p turns : Nat} {bytesRemain : Int} {found : Option (OptKind × Nat)} {l4' target : List UInt8}

theorem le_nextAt (h : lenAt l4 p ≠ 0) : p + ndOptLen ≤ nextAt l4 p := by
  have hpos := Nat.pos_of_ne_zero fun hzero => h (UInt8.toNat_inj.1 hzero)
  simp only [nextAt, ndOptLen]
  omega

/-- What the counter is at an option: the bytes that are left, off by the lengths of the first option and this one. -/
def Counts (l4 : List UInt8) (p : Nat) (bytesRemain : Int) : Prop :=
  bytesRemain = (l4.length : Int) - p + ndOptLen * ((lenAt l4 ndMsgLen).toNat - (lenAt l4 p).toNat)

/-- The counter says the same about the option at `p` as the data. -/
def Agrees (l4 : List UInt8) (p : Nat) (bytesRemain : Int) : Prop :=
  lenAt l4 p ≠ 0 → ((ndOptLen : Int) ≤ bytesRemain ↔ p + ndOptLen ≤ l4.length)

theorem Counts.agrees_iff (h : Counts l4 p bytesRemain) :
    Agrees l4 p bytesRemain ↔ (lenAt l4 p ≠ 0 →
      (p + ndOptLen * (lenAt l4 p).toNat + ndOptLen ≤ l4.length + ndOptLen * (lenAt l4 ndMsgLen).toNat ↔
        p + ndOptLen ≤ l4.length)) := by
  refine imp_congr_right fun _ => iff_congr ?_ Iff.rfl
  rw [h]
  simp only [ndOptLen]
  omega

theorem optionLoop_succ (hagrees : Agrees l4 p bytesRemain)
    (hlen : (ndOptLen : Int) ≤ bytesRemain → p + 2 ≤ l4.length) :
    optionLoop l4 (turns + 1) p bytesRemain =
      if OptionAt l4 p then
        if kindAt l4 p = .other then do
          let len' ← u8At l4 (nextAt l4 p + 1)
          let (found, visited) ← optionLoop l4 turns (nextAt l4 p) (bytesRemain - len'.toNat * ndOptLen)
          .ok (found, p :: visited)
        else .ok (some (kindAt l4 p, p), [p])
      else .ok (none, []) := by
  rw [optionLoop]
  by_cases hremain : bytesRemain < ndOptLen
  · have hnone : ¬ OptionAt l4 p := fun hopt => absurd ((hagrees hopt.2).2 hopt.1) (not_le.2 hremain)
    rw [if_pos hremain, if_neg hnone]
  rw [if_neg hremain, u8At_eq, if_pos (by omega), ok_bind]
  by_cases hzero : l4.getD (p + 1) 0 = 0
  · rw [if_pos hzero, if_neg fun hopt => hopt.2 hzero]
  have hopt : OptionAt l4 p := ⟨(hagrees hzero).1 (not_lt.1 hremain), hzero⟩
  rw [if_neg hzero, if_pos hopt, u8At_eq, if_pos (by omega)]
  show (match kindAt l4 p with | .other => _ | kind => _) = _
  cases kindAt l4 p with
  | source => rfl
  | target => rfl
  | other => rfl

theorem walkFrom_succ_eq_nil_iff : walkFrom l4 (turns + 1) p = [] ↔ ¬ OptionAt l4 p := by
  rw [walkFrom]
  split <;> simp [*]

theorem optionLoop_eq_nil_iff {visited : List Nat}
    (h : optionLoop l4 (turns + 1) p bytesRemain = .ok (found, visited)) :
    visited = [] ↔ ¬ ((ndOptLen : Int) ≤ bytesRemain ∧ lenAt l4 p ≠ 0) := by
  rw [optionLoop] at h
  by_cases hremain : bytesRemain < ndOptLen
  · grind
  rw [if_neg hremain] at h
  obtain ⟨len, hlen, h⟩ := bind_eq_ok h
  rw [u8At_eq] at hlen
  split at hlen
  case isFalse => cases hlen
  cases hlen
  by_cases hzero : l4.getD (p + 1) 0 = 0
  · rw [if_pos hzero] at h
    cases h
    exact ⟨fun _ hopt => hopt.2 hzero, fun _ => rfl⟩
  rw [if_neg hzero] at h
  obtain ⟨type, -, h⟩ := bind_eq_ok h
  have hvisited : visited ≠ [] := by
    revert h
    cases optKind type (l4.getD (p + 1) 0) with
    | source | target =>
      intro h
      cases h
      exact cons_ne_nil _ _
    | other =>
      intro h
      obtain ⟨_, -, h⟩ := bind_eq_ok h
      obtain ⟨_, -, h⟩ := bind_eq_ok h
      cases h
      exact cons_ne_nil _ _
  exact ⟨fun hnil => absurd hnil hvisited, fun hnone => absurd ⟨not_lt.1 hremain, hzero⟩ hnone⟩

theorem agrees_of_optionLoop (hturns : 0 < turns)
    (h : optionLoop l4 turns p bytesRemain = .ok (found, walkFrom l4 turns p)) : Agrees l4 p bytesRemain := by
  obtain ⟨turns, rfl⟩ : ∃ t, turns = t + 1 := ⟨turns - 1, by omega⟩
  intro hlen
  have hiff := not_iff_not.1 ((optionLoop_eq_nil_iff h).symm.trans walkFrom_succ_eq_nil_iff)
  exact ⟨fun hremain => (hiff.1 ⟨hremain, hlen⟩).1, fun hinside => (hiff.2 ⟨hinside, hlen⟩).1⟩

/-- The loop is at the options of the walk just when each of them is passed as it should be. -/
theorem optionLoop_eq_walk_iff : ∀ {turns p : Nat} {bytesRemain : Int}, l4.length < turns + p → 0 < turns →
    Counts l4 p bytesRemain → Agrees l4 p bytesRemain → ((ndOptLen : Int) ≤ bytesRemain → p + 2 ≤ l4.length) →
    ((∃ found, optionLoop l4 turns p bytesRemain = .ok (found, walkFrom l4 turns p)) ↔
      ∀ q ∈ walkFrom l4 turns p, kindAt l4 q = .other → PassedAt l4 q)
  | 0, _, _, _, hpos, _, _, _ => absurd hpos (Nat.lt_irrefl 0)
  | turns + 1, p, bytesRemain, hturns, _, hcounts, hagrees, hlen => by
    rw [optionLoop_succ hagrees hlen, walkFrom]
    by_cases hopt : OptionAt l4 p
    · rw [if_pos hopt, if_pos hopt]
      by_cases hkind : kindAt l4 p = .other
      · rw [if_pos hkind, if_pos hkind, forall_mem_cons, u8At_eq]
        have hnext := le_nextAt hopt.2
        by_cases hinside : nextAt l4 p + 1 + 1 ≤ l4.length
        · rw [if_pos hinside]
          have hcounts' : Counts l4 (nextAt l4 p) (bytesRemain - (lenAt l4 (nextAt l4 p)).toNat * ndOptLen) := by
            have hnextEq : ((nextAt l4 p : Nat) : Int) = p + ndOptLen * (lenAt l4 p).toNat := by
              simp [nextAt]
            unfold Counts at hcounts ⊢
            rw [hcounts, hnextEq]
            ring
          have hstep : (∃ found, (do
                let (found, visited) ← optionLoop l4 turns (nextAt l4 p)
                  (bytesRemain - (lenAt l4 (nextAt l4 p)).toNat * ndOptLen)
                .ok (found, p :: visited) : Except Fault _) = .ok (found, p :: walkFrom l4 turns (nextAt l4 p))) ↔
              ∃ found, optionLoop l4 turns (nextAt l4 p)
                (bytesRemain - (lenAt l4 (nextAt l4 p)).toNat * ndOptLen) = .ok (found, walkFrom l4 turns (nextAt l4 p)) := by
            constructor
            · rintro ⟨found, h⟩
              obtain ⟨⟨found', visited⟩, hloop, hcons⟩ := bind_eq_ok h
              simp_all
            · simp_all
          refine hstep.trans ?_
          have hpassed : PassedAt l4 p ↔
              Agrees l4 (nextAt l4 p) (bytesRemain - (lenAt l4 (nextAt l4 p)).toNat * ndOptLen) := by
            rw [hcounts'.agrees_iff]
            exact ⟨fun h => h.2, fun h => ⟨hinside, h⟩⟩
          have hturns' : l4.length < turns + nextAt l4 p := by
            simp only [ndOptLen] at hnext
            omega
          have ih := fun hagrees' => optionLoop_eq_walk_iff hturns' (by omega) hcounts' hagrees' fun _ => hinside
          constructor
          · intro hloop
            obtain ⟨found, h⟩ := hloop
            have hagrees' := agrees_of_optionLoop (by omega) h
            grind
          · grind
        · rw [if_neg hinside]
          constructor
          · simp
          · rintro ⟨hhead, -⟩
            exact absurd (hhead hkind).1 hinside
      · simp [*]
    · simp [*]

theorem options_eq_walk_iff : (∃ found, options l4 = .ok (found, walk l4)) ↔ OptionsPassed l4 := by
  refine optionLoop_eq_walk_iff (by omega) (by omega) ?_ (fun _ => by omega) ?_
  · simp [Counts]
  · simp only [ndOptLen]
    omega

theorem walk_eq_nil (h : l4.length < ndMsgLen) : walk l4 = [] :=
  walkFrom_succ_eq_nil_iff.2 fun hopt => by
    have hinside := hopt.1
    omega

theorem optionAt_of_mem_walkFrom : ∀ {turns p q : Nat}, q ∈ walkFrom l4 turns p → p ≤ q ∧ OptionAt l4 q
  | 0, _, _, h => absurd h not_mem_nil
  | turns + 1, p, q, h => by
    rw [walkFrom] at h
    split at h
    case isFalse => exact absurd h not_mem_nil
    case isTrue hopt =>
      rcases mem_cons.1 h with rfl | h
      · exact ⟨le_refl _, hopt⟩
      · split at h
        · obtain ⟨hle, hq⟩ := optionAt_of_mem_walkFrom h
          exact ⟨(Nat.le_of_add_right_le (le_nextAt hopt.2)).trans hle, hq⟩
        · exact absurd h not_mem_nil

theorem optionLoop_found : ∀ {turns p : Nat} {bytesRemain : Int} {found : Option (OptKind × Nat)} {visited : List Nat},
    optionLoop l4 turns p bytesRemain = .ok (found, visited) → ∀ x ∈ found, x.2 ∈ visited
  | 0, _, _, _, _, h => by cases h
  | turns + 1, p, bytesRemain, found, visited, h => by
    rw [optionLoop] at h
    split at h
    · cases h
      simp
    obtain ⟨len, -, h⟩ := bind_eq_ok h
    split at h
    · cases h
      simp
    obtain ⟨type, -, h⟩ := bind_eq_ok h
    revert h
    cases optKind type len with
    | source | target =>
      intro h
      cases h
      simp
    | other =>
      intro h
      obtain ⟨len', -, h⟩ := bind_eq_ok h
      obtain ⟨⟨found', visited'⟩, hloop, h⟩ := bind_eq_ok h
      cases h
      intro x hx
      exact mem_cons_of_mem _ (optionLoop_found hloop x hx)

theorem options_found (h : options l4 = .ok (found, walk l4)) {kind : OptKind} {ndOpt : Nat}
    (hfound : found = some (kind, ndOpt)) : ndMsgLen ≤ ndOpt ∧ ndOpt + ndOptLen ≤ l4.length := by
  obtain ⟨hle, hopt⟩ := optionAt_of_mem_walkFrom (optionLoop_found h (kind, ndOpt) hfound)
  exact ⟨hle, hopt.1⟩

/-! ## Writing -/

/-- As many bytes, and the same options. -/
structure SameOptions (l4 l4' : List UInt8) : Prop where
  length : l4'.length = l4.length
  drop : l4'.drop ndMsgLen = l4.drop ndMsgLen

theorem readAt_ok {n : Nat} (h : p + n ≤ l4.length) : readAt l4 p n = .ok (Bytes.read l4 p n) :=
  if_pos h

theorem writeAt_ok {new : List UInt8} (h : p + new.length ≤ l4.length) :
    writeAt l4 p new = .ok (Bytes.write l4 p new) :=
  if_pos h

theorem be16At_ok (l4 : List UInt8) (p : Nat) (h : p + 2 ≤ l4.length) : ∃ v, be16At l4 p = .ok v :=
  ⟨_, by rw [be16At, readAt_ok h]; rfl⟩

theorem SameOptions.refl (l4 : List UInt8) : SameOptions l4 l4 := ⟨rfl, rfl⟩

theorem SameOptions.write (h : SameOptions l4 l4') (p : Nat) (new : List UInt8) (hp : p + new.length ≤ ndMsgLen)
    (hsize : ndMsgLen ≤ l4.length) : SameOptions l4 (Bytes.write l4' p new) := by
  have hlen := h.length
  constructor
  · rw [Bytes.length_write (by omega), hlen]
  · have htake : (l4'.take p ++ new).length = p + new.length := by
      rw [length_append, length_take]
      omega
    rw [← h.drop, Bytes.write, drop_append, drop_eq_nil_of_le (by omega), nil_append, drop_drop]
    congr 1
    omega

theorem SameOptions.u8At_eq (h : SameOptions l4 l4') (hp : ndMsgLen ≤ p) : u8At l4' p = u8At l4 p := by
  have hget : l4'.getD p 0 = l4.getD p 0 := by
    have hdrop := congrArg (fun bs => bs.getD (p - ndMsgLen) 0) h.drop
    simpa [getD_eq_getElem?_getD, Nat.add_sub_cancel' hp] using hdrop
  rw [Nd.u8At_eq, Nd.u8At_eq, h.length, hget]

theorem SameOptions.optionLoop_eq (h : SameOptions l4 l4') : ∀ {turns p : Nat} {bytesRemain : Int},
    ndMsgLen ≤ p → optionLoop l4' turns p bytesRemain = optionLoop l4 turns p bytesRemain
  | 0, _, _, _ => rfl
  | turns + 1, p, bytesRemain, hp => by
    rw [optionLoop, h.u8At_eq (Nat.le_add_right_of_le hp), h.u8At_eq hp]
    refine if_congr Iff.rfl rfl (bind_congr fun len => if_congr Iff.rfl rfl (bind_congr fun type => ?_))
    cases optKind type len with
    | source | target => rfl
    | other =>
      dsimp only
      rw [h.u8At_eq (by omega)]
      refine bind_congr fun len' => ?_
      rw [h.optionLoop_eq (by omega)]

theorem SameOptions.options_eq (h : SameOptions l4 l4') : options l4' = options l4 := by
  rw [options, h.length]
  exact h.optionLoop_eq (le_refl _)

theorem setTarget_ok (hsize : ndMsgLen ≤ l4.length) (htarget : target.length = 16) :
    ∃ l4', setTarget l4 target = .ok l4' ∧ SameOptions l4 l4' := by
  unfold ndMsgLen at hsize
  obtain ⟨csum, hcsum⟩ := be16At_ok l4 2 (by omega)
  have hstore : ∀ v, (store16 v).length = 2 := fun _ => rfl
  have hfirst := (SameOptions.refl l4).write 2 (store16 (recalcCsum128 csum (Bytes.read l4 8 16) target))
    (by rw [hstore]; decide) hsize
  rw [setTarget, readAt_ok (by omega), ok_bind, hcsum, ok_bind, writeAt_ok (by rw [hstore]; omega),
    ok_bind, writeAt_ok (by rw [hfirst.length, htarget]; omega)]
  exact ⟨_, rfl, hfirst.write _ _ (by rw [htarget]; decide) hsize⟩

theorem setMac_ok {ndOpt : Nat} {mac : List UInt8} (hopt : ndMsgLen ≤ ndOpt ∧ ndOpt + ndOptLen ≤ l4.length)
    (hmac : mac.length = 6) : ∃ l4', setMac l4 ndOpt mac = .ok l4' := by
  obtain ⟨hle, hinside⟩ := hopt
  unfold ndOptLen at hinside
  rw [setMac, readAt_ok (by omega), ok_bind]
  split
  · exact ⟨_, rfl⟩
  obtain ⟨csum, hcsum⟩ := be16At_ok l4 2 (by omega)
  have hstore : ∀ v, (store16 v).length = 2 := fun _ => rfl
  rw [hcsum, ok_bind, writeAt_ok (by rw [hstore]; omega), ok_bind,
    writeAt_ok (by rw [Bytes.length_write (by rw [hstore]; omega), hmac]; omega)]
  exact ⟨_, rfl⟩

theorem setFoundMac_ok (l4 : List UInt8) {sll tll : List UInt8} (hsll : sll.length = 6)
    (htll : tll.length = 6)
    (hfound : ∀ kind ndOpt, found = some (kind, ndOpt) → ndMsgLen ≤ ndOpt ∧ ndOpt + ndOptLen ≤ l4.length) :
    ∃ l4', setFoundMac l4 sll tll found = .ok l4' := by
  rcases found with _ | ⟨kind, ndOpt⟩
  · exact ⟨l4, rfl⟩
  have hopt := hfound kind ndOpt rfl
  cases kind with
  | source => exact setMac_ok hopt hsll
  | target => exact setMac_ok hopt htll
  | other => exact ⟨l4, rfl⟩

/-- When the target has been dealt with, the options are still as they were. -/
theorem packetSetNd_eq (sll tll : List UInt8) (hsize : ndMsgLen ≤ l4.length)
    (htarget : target.length = 16) : ∃ l4₁, SameOptions l4 l4₁ ∧ packetSetNd l4 target sll tll = (do
      let (found, visited) ← options l4
      let l4' ← setFoundMac l4₁ sll tll found
      .ok (l4', visited)) := by
  have hread : 8 + 16 ≤ l4.length := hsize
  rw [packetSetNd, if_neg (not_lt.2 hsize), readAt_ok hread, ok_bind]
  split
  · exact ⟨l4, .refl l4, rfl⟩
  · obtain ⟨l4₁, h, hsame⟩ := setTarget_ok hsize htarget
    refine ⟨l4₁, hsame, ?_⟩
    rw [h, ok_bind]
    exact congrArg (· >>= _) hsame.options_eq

theorem packetSetNd_eq_walk_iff {sll tll : List UInt8} (htarget : target.length = 16) (hsll : sll.length = 6)
    (htll : tll.length = 6) :
    (∃ l4', packetSetNd l4 target sll tll = .ok (l4', walk l4)) ↔ OptionsPassed l4 := by
  by_cases hsize : l4.length < ndMsgLen
  · rw [packetSetNd, if_pos hsize, OptionsPassed, walk_eq_nil hsize]
    exact ⟨fun _ => forall_mem_nil _, fun _ => ⟨l4, rfl⟩⟩
  obtain ⟨l4₁, hsame, heq⟩ := packetSetNd_eq sll tll (not_lt.1 hsize) htarget
  rw [heq, ← options_eq_walk_iff]
  constructor
  · rintro ⟨l4', h⟩
    obtain ⟨⟨found, visited⟩, hoptions, h⟩ := bind_eq_ok h
    obtain ⟨l4'', -, h⟩ := bind_eq_ok h
    simp_all
  · rintro ⟨found, h⟩
    have hfound := fun kind ndOpt (hx : found = some (kind, ndOpt)) => options_found h hx
    obtain ⟨l4', hset⟩ := setFoundMac_ok l4₁ hsll htll (hsame.length ▸ hfound)
    simp [*]

theorem length_copyMasked : ∀ {n : Nat} {dst src mask : List UInt8}, dst.length = n → src.length = n → mask.length = n →
    (copyMasked dst src mask).length = n
  | 0, [], [], [], _, _, _ => rfl
  | n + 1, _ :: dst, _ :: src, _ :: mask, hdst, hsrc, hmask => by
    rw [copyMasked, length_cons, length_copyMasked (Nat.succ.inj hdst) (Nat.succ.inj hsrc) (Nat.succ.inj hmask)]

theorem length_read {n : Nat} (h : p + n ≤ l4.length) : (Bytes.read l4 p n).length = n := by
  rw [Bytes.read, length_take, length_drop]
  omega

theorem maskFoundMac_ok (key mask : OvsKeyNd)
    (hfound : ∀ kind ndOpt, found = some (kind, ndOpt) → ndMsgLen ≤ ndOpt ∧ ndOpt + ndOptLen ≤ l4.length) :
    ∃ sll tll, maskFoundMac l4 key mask found = .ok (sll, tll) ∧ sll.length = 6 ∧ tll.length = 6 := by
  rcases found with _ | ⟨kind, ndOpt⟩
  · exact ⟨_, _, rfl, rfl, rfl⟩
  obtain ⟨-, hinside⟩ := hfound kind ndOpt rfl
  have hmac : ndOpt + 2 + 6 ≤ l4.length := hinside
  have hlen := length_read hmac
  cases kind with
  | source =>
    rw [maskFoundMac, readAt_ok hmac]
    exact ⟨_, _, rfl, length_copyMasked hlen key.ndSll_length mask.ndSll_length, rfl⟩
  | target =>
    rw [maskFoundMac, readAt_ok hmac]
    exact ⟨_, _, rfl, rfl, length_copyMasked hlen key.ndTll_length mask.ndTll_length⟩
  | other => exact ⟨_, _, rfl, rfl, rfl⟩

theorem odpSetNd_eq_walk_iff (key mask : OvsKeyNd) :
    (∃ l4', odpSetNd l4 key mask = .ok (l4', walk l4, walk l4)) ↔ OptionsPassed l4 := by
  by_cases hsize : l4.length < ndMsgLen
  · rw [odpSetNd, if_pos hsize, OptionsPassed, walk_eq_nil hsize]
    exact ⟨fun _ => forall_mem_nil _, fun _ => ⟨l4, rfl⟩⟩
  rw [odpSetNd, if_neg hsize]
  constructor
  · rintro ⟨l4', h⟩
    obtain ⟨⟨found, visited⟩, hoptions, h⟩ := bind_eq_ok h
    obtain ⟨⟨sll, tll⟩, -, h⟩ := bind_eq_ok h
    obtain ⟨old, -, h⟩ := bind_eq_ok h
    obtain ⟨⟨l4₁, visited'⟩, -, h⟩ := bind_eq_ok h
    cases h
    exact options_eq_walk_iff.1 ⟨found, hoptions⟩
  · intro hpassed
    obtain ⟨found, hoptions⟩ := options_eq_walk_iff.2 hpassed
    obtain ⟨sll, tll, hmask, hsll, htll⟩ := maskFoundMac_ok key mask fun _ _ => options_found hoptions
    have hread : 8 + 16 ≤ l4.length := not_lt.1 hsize
    have htarget := length_copyMasked (length_read hread) key.ndTarget_length mask.ndTarget_length
    obtain ⟨l4', hset⟩ := (packetSetNd_eq_walk_iff htarget hsll htll).2 hpassed
    refine ⟨l4', ?_⟩
    rw [hoptions]
    show (maskFoundMac l4 key mask found >>= _) = _
    rw [hmask, readAt_ok hread]
    simp [*]

/-- A set and a masked set action for neighbor discovery stay inside the L4 data and are at the options of the walk
just when every option that is not a link-layer address is passed as it should be. -/
theorem setNd_walks_iff (l4 : List UInt8) (key mask : OvsKeyNd) :
    ((∃ l4', packetSetNd l4 key.ndTarget key.ndSll key.ndTll = .ok (l4', walk l4)) ↔ OptionsPassed l4) ∧
      ((∃ l4', odpSetNd l4 key mask = .ok (l4', walk l4, walk l4)) ↔ OptionsPassed l4) :=
  ⟨packetSetNd_eq_walk_iff key.ndTarget_length key.ndSll_length key.ndTll_length, odpSetNd_eq_walk_iff key mask⟩

/-- A neighbor solicitation with one option, a nonce, that ends with the data. -/
def nonceLast : List UInt8 := 135 :: List.replicate 23 0 ++ [14, 1, 1, 2, 3, 4, 5, 6]

theorem length_zeroTarget : (List.replicate 16 (0 : UInt8)).length = 16 := rfl

def keyZero : OvsKeyNd := ⟨List.replicate 16 0, List.replicate 6 0, List.replicate 6 0, length_zeroTarget, rfl, rfl⟩

/-- Behind the nonce there is no option, but both loops read its length. -/
theorem nonceLast_outside : walk nonceLast = [24] ∧
    packetSetNd nonceLast keyZero.ndTarget keyZero.ndSll keyZero.ndTll = .error .outside ∧
    odpSetNd nonceLast keyZero keyZero = .error .outside := by
  decide +kernel

end LinkerOvs.Nd
