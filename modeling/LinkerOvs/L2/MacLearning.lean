/-
MAC learning (`lib/mac-learning.c`): the table of learned addresses, kept in the order in which its
entries were last used. A full table gives up the oldest entry of a port that has the most of them; which
of several such ports, a heap decides, so the port is a parameter here.
-/
import LinkerOvs.Gtp.Manager

namespace LinkerOvs.L2

open List

abbrev EthAddr := Gtp.EthAddr

def ethAddrIsMulticast (a : EthAddr) : Bool := a.getLsbD 40

def ethAddrIsBroadcast (a : EthAddr) : Bool := a = BitVec.allOnes 48

/-- A port is the bundle an address was learned on; it is null in a new entry, and a lock of `none` stands for
`TIME_MIN`. -/
structure MacEntry where
  mac : EthAddr
  vlan : UInt16
  expires : Int
  gratArpLock : Option Int
  port : Option Nat
deriving DecidableEq

structure MacLearning where
  lrus : List MacEntry -- least recently used first
  floodVlans : UInt16 → Bool
  idleTime : Int
  maxEntries : Nat

def macGratArpLockTime : Int := 5

namespace MacLearning

variable (ml : MacLearning)

def isLearningVlan (vlan : UInt16) : Bool := !ml.floodVlans vlan

def mayLearn (srcMac : EthAddr) (vlan : UInt16) : Bool := ml.isLearningVlan vlan && !ethAddrIsMulticast srcMac

def entryLookup (mac : EthAddr) (vlan : UInt16) : Option MacEntry :=
  ml.lrus.find? fun e => e.mac = mac && e.vlan = vlan

def lookup (dst : EthAddr) (vlan : UInt16) : Option MacEntry :=
  if ethAddrIsMulticast dst then none
  else if ml.isLearningVlan vlan then ml.entryLookup dst vlan
  else none

def entryAge (e : MacEntry) (now : Int) : Int := ml.idleTime - (e.expires - now)

/-- With the port that `heap_max` gives. -/
def evictMacEntryFairly (heapMax : Nat) : MacLearning :=
  { ml with lrus := ml.lrus.eraseP (·.port = some heapMax) }

/-- `mac_learning_insert`: the entry, and the table without it. The caller puts the entry at the end. -/
def insert (srcMac : EthAddr) (vlan : UInt16) (now : Int) (heapMax : Nat) : MacEntry × MacLearning :=
  match ml.entryLookup srcMac vlan with
  | some e =>
    ({ e with expires := now + ml.idleTime },
      { ml with lrus := ml.lrus.eraseP fun e => e.mac = srcMac && e.vlan = vlan })
  | none =>
    ({ mac := srcMac, vlan := vlan, expires := now + ml.idleTime, gratArpLock := none, port := none },
      if ml.lrus.length ≥ ml.maxEntries then ml.evictMacEntryFairly heapMax else ml)

/-- `mac_learning_run`: entries leave from the old end. -/
def expireOld (maxEntries : Nat) (now : Int) : List MacEntry → List MacEntry
  | [] => []
  | e :: es => if (e :: es).length > maxEntries || now ≥ e.expires then expireOld maxEntries now es else e :: es

def run (now : Int) : MacLearning := { ml with lrus := expireOld ml.maxEntries now ml.lrus }

def flush : MacLearning := { ml with lrus := [] }

end MacLearning

def MacEntry.isGratArpLocked (e : MacEntry) (now : Int) : Bool :=
  match e.gratArpLock with
  | some lock => now < lock
  | none => false

/-! ## Learned entries -/

/-- Every address was learned on a port that satisfies `carries` for the VLAN it was learned in. -/
def MacLearning.Learned (carries : Nat → UInt16 → Prop) (ml : MacLearning) : Prop :=
  ∀ e ∈ ml.lrus, ∀ p, e.port = some p → carries p e.vlan

namespace MacLearning.Learned

variable {carries : Nat → UInt16 → Prop} {ml : MacLearning}

section

variable (h : ml.Learned carries)
include h

theorem subset {lrus : List MacEntry} (hsub : lrus ⊆ ml.lrus) :
    MacLearning.Learned carries { ml with lrus := lrus } :=
  fun e he => h e (hsub he)

theorem lookup {dst : EthAddr} {vlan : UInt16} {e : MacEntry} {p : Nat}
    (he : ml.lookup dst vlan = some e) (hp : e.port = some p) : carries p vlan := by
  rw [MacLearning.lookup] at he
  split at he
  · cases he
  split at he
  · have hmem := mem_of_find?_eq_some he
    have hkey := find?_some he
    simp only [Bool.and_eq_true, decide_eq_true_eq] at hkey
    exact hkey.2 ▸ h e hmem p hp
  · cases he

theorem insert_snd (srcMac : EthAddr) (vlan : UInt16) (now : Int) (heapMax : Nat) :
    (ml.insert srcMac vlan now heapMax).2.Learned carries := by
  rw [MacLearning.insert]
  split
  · exact h.subset eraseP_subset
  · split
    · exact h.subset eraseP_subset
    · exact h

theorem insert_fst (srcMac : EthAddr) (vlan : UInt16) (now : Int) (heapMax : Nat) :
    (ml.insert srcMac vlan now heapMax).1.vlan = vlan ∧
      ∀ p, (ml.insert srcMac vlan now heapMax).1.port = some p → carries p vlan := by
  rw [MacLearning.insert]
  split
  · next e he =>
    have hmem := mem_of_find?_eq_some he
    have hkey := find?_some he
    simp only [Bool.and_eq_true, decide_eq_true_eq] at hkey
    exact ⟨hkey.2, fun p hp => hkey.2 ▸ h e hmem p hp⟩
  · simp

theorem push {e : MacEntry} (he : ∀ p, e.port = some p → carries p e.vlan) :
    MacLearning.Learned carries { ml with lrus := ml.lrus ++ [e] } := by
  intro e' he'
  rcases mem_append.1 he' with he' | he'
  · exact h e' he'
  · simp_all

end

theorem expireOld_subset (maxEntries : Nat) (now : Int) :
    ∀ es : List MacEntry, MacLearning.expireOld maxEntries now es ⊆ es
  | [] => List.Subset.refl _
  | e :: es => by
    rw [MacLearning.expireOld]
    split
    · exact fun x hx => mem_cons_of_mem _ (expireOld_subset maxEntries now es hx)
    · exact List.Subset.refl _

theorem run (h : ml.Learned carries) (now : Int) : (ml.run now).Learned carries :=
  h.subset (expireOld_subset _ _ _)

theorem flush (ml : MacLearning) : ml.flush.Learned carries :=
  forall_mem_nil _

end MacLearning.Learned

end LinkerOvs.L2
