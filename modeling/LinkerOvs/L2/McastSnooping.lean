/-
Multicast snooping (`lib/mcast-snooping.c`): the groups that hosts have joined with the ports they joined
on, the ports behind which multicast routers have been heard, and the ports configured to be flooded or to
receive reports. Both learned tables are kept in the order of last use and lose entries from the old end.
-/
import Mathlib.Tactic

namespace LinkerOvs.L2

open List

abbrev In6Addr := BitVec 128

def in6AddrMappedIpv4 (ip4 : UInt32) : In6Addr := 0xffff00000000 ||| ip4.toBitVec.setWidth 128

structure McastGroupBundle where
  expires : Int
  port : Nat
deriving DecidableEq

structure McastGroup where
  addr : In6Addr
  vlan : UInt16
  bundleLru : List McastGroupBundle
deriving DecidableEq

structure McastMrouterBundle where
  expires : Int
  vlan : UInt16
  port : Nat
deriving DecidableEq

structure McastSnooping where
  groupLru : List McastGroup
  mrouterLru : List McastMrouterBundle
  fportList : List Nat
  rportList : List Nat
  idleTime : Int
  maxEntries : Nat
  floodUnreg : Bool

/-- What a membership report says about one group: `mcast_snooping_add_report` and `mcast_snooping_add_mld`
read these out of a packet. -/
inductive McastRecord
  | add (addr : In6Addr)
  | leave (addr : In6Addr)

def mcastMrouterPortIdleTime : Int := 180

/-- `mcast_group_insert_bundle`. -/
def McastGroup.insertBundle (grp : McastGroup) (port : Nat) (expires : Int) : McastGroup :=
  { grp with bundleLru := grp.bundleLru.eraseP (·.port = port) ++ [{ expires := expires, port := port }] }

/-- `mcast_group_delete_bundle`. -/
def McastGroup.deleteBundle (grp : McastGroup) (port : Nat) : McastGroup :=
  { grp with bundleLru := grp.bundleLru.eraseP (·.port = port) }

namespace McastSnooping

variable (ms : McastSnooping)

def lookup (dip : In6Addr) (vlan : UInt16) : Option McastGroup :=
  ms.groupLru.find? fun grp => grp.vlan = vlan && grp.addr = dip

def lookup4 (ip4 : UInt32) (vlan : UInt16) : Option McastGroup := ms.lookup (in6AddrMappedIpv4 ip4) vlan

def mrouterLookup (vlan : UInt16) (port : Nat) : Option McastMrouterBundle :=
  ms.mrouterLru.find? fun m => m.vlan = vlan && m.port = port

def addGroup (addr : In6Addr) (vlan : UInt16) (port : Nat) (now : Int) : McastSnooping :=
  -- avoid duplicate packets
  if (ms.mrouterLookup vlan port).isSome || port ∈ ms.fportList then ms
  else
    match ms.lookup addr vlan with
    | some grp =>
      { ms with
        groupLru := ms.groupLru.eraseP (fun grp => grp.vlan = vlan && grp.addr = addr)
          ++ [grp.insertBundle port (now + ms.idleTime)] }
    | none =>
      { ms with
        groupLru := (if ms.groupLru.length ≥ ms.maxEntries then ms.groupLru.tail else ms.groupLru)
          ++ [McastGroup.insertBundle { addr := addr, vlan := vlan, bundleLru := [] } port (now + ms.idleTime)] }

def leaveGroup (addr : In6Addr) (vlan : UInt16) (port : Nat) : McastSnooping :=
  if port ∈ ms.rportList then ms
  else
    { ms with
      groupLru := ms.groupLru.replaceF fun grp =>
        if grp.vlan = vlan && grp.addr = addr then some (grp.deleteBundle port) else none }

def applyRecord (vlan : UInt16) (port : Nat) (now : Int) (ms : McastSnooping) : McastRecord → McastSnooping
  | .add addr => ms.addGroup addr vlan port now
  | .leave addr => ms.leaveGroup addr vlan port

def addMrouter (vlan : UInt16) (port : Nat) (now : Int) : McastSnooping :=
  -- avoid duplicate packets
  if port ∈ ms.fportList then ms
  else
    { ms with
      mrouterLru := ms.mrouterLru.eraseP (fun m => m.vlan = vlan && m.port = port)
        ++ [{ expires := now + mcastMrouterPortIdleTime, vlan := vlan, port := port }] }

/-- The loop of `mcast_snooping_run__` over the groups. -/
def runGroups (maxEntries : Nat) (now : Int) : List McastGroup → List McastGroup
  | [] => []
  | grp :: grps =>
    if (grp :: grps).length > maxEntries then runGroups maxEntries now grps
    else
      match grp.bundleLru.dropWhile (·.expires ≤ now) with -- mcast_snooping_prune_expired
      | [] => runGroups maxEntries now grps
      | b :: bs => { grp with bundleLru := b :: bs } :: grps

def run (now : Int) : McastSnooping :=
  { ms with
    groupLru := runGroups ms.maxEntries now ms.groupLru
    mrouterLru := ms.mrouterLru.dropWhile (·.expires ≤ now) }

def mdbFlush : McastSnooping := { ms with groupLru := [], mrouterLru := [] }

end McastSnooping

/-! ## Learned tables -/

/-- A group as learned: each port once, carrying the group's VLAN and not flooded anyway. -/
structure McastGroup.Learned (carries : Nat → UInt16 → Prop) (fportList : List Nat) (grp : McastGroup) : Prop where
  nodup : (grp.bundleLru.map (·.port)).Nodup
  carries : ∀ b ∈ grp.bundleLru, carries b.port grp.vlan
  notFlooded : ∀ b ∈ grp.bundleLru, b.port ∉ fportList

/-- The tables as learned under one configuration: a router's port is listed once for each VLAN it was heard
in, and carries it. -/
structure McastSnooping.Learned (carries : Nat → UInt16 → Prop) (ms : McastSnooping) : Prop where
  fports : ms.fportList.Nodup
  rports : ms.rportList.Nodup
  mrouters : (ms.mrouterLru.map fun m => (m.vlan, m.port)).Nodup
  mroutersCarry : ∀ m ∈ ms.mrouterLru, carries m.port m.vlan
  mroutersNotFlooded : ∀ m ∈ ms.mrouterLru, m.port ∉ ms.fportList
  groups : ∀ grp ∈ ms.groupLru, grp.Learned carries ms.fportList

section

variable {carries : Nat → UInt16 → Prop} {fportList : List Nat}

theorem McastGroup.Learned.sublist {grp : McastGroup} (h : grp.Learned carries fportList)
    {bundleLru : List McastGroupBundle} (hsub : bundleLru.Sublist grp.bundleLru) :
    McastGroup.Learned carries fportList { grp with bundleLru := bundleLru } where
  nodup := (hsub.map _).nodup h.nodup
  carries b hb := h.carries b (hsub.subset hb)
  notFlooded b hb := h.notFlooded b (hsub.subset hb)

theorem ne_of_mem_eraseP {α β : Type} {f : α → β} {p : α → Bool} {k : β} (hp : ∀ y, p y = true ↔ f y = k) :
    ∀ {l : List α}, (l.map f).Nodup → ∀ y ∈ l.eraseP p, f y ≠ k
  | z :: l, h, y, hy => by
    rw [map_cons, nodup_cons] at h
    by_cases hz : p z = true
    · grind
    · rw [eraseP_cons_of_neg hz] at hy
      rcases mem_cons.1 hy with rfl | hy
      · exact mt (hp y).2 hz
      · exact ne_of_mem_eraseP hp h.2 y hy

theorem nodup_eraseP_append {α β : Type} {f : α → β} {p : α → Bool} {l : List α} (h : (l.map f).Nodup) {x : α}
    (hp : ∀ y, p y = true ↔ f y = f x) : ((l.eraseP p ++ [x]).map f).Nodup := by
  have hsub : (l.eraseP p).Sublist l := eraseP_sublist
  rw [map_append, nodup_append]
  refine ⟨(hsub.map f).nodup h, nodup_singleton _, ?_⟩
  intro a ha b hb
  cases mem_singleton.1 hb
  obtain ⟨y, hy, rfl⟩ := mem_map.1 ha
  exact ne_of_mem_eraseP hp h y hy

theorem McastGroup.Learned.insertBundle {grp : McastGroup} (h : grp.Learned carries fportList) {port : Nat}
    (hcarries : carries port grp.vlan) (hport : port ∉ fportList) (expires : Int) :
    (grp.insertBundle port expires).Learned carries fportList := by
  have hmem : ∀ b ∈ (grp.insertBundle port expires).bundleLru, b ∈ grp.bundleLru ∨ b.port = port := by
    intro b hb
    rcases mem_append.1 hb with hb | hb
    · exact .inl (eraseP_subset hb)
    · simp_all
  refine ⟨nodup_eraseP_append h.nodup fun _ => decide_eq_true_iff, fun b hb => ?_, fun b hb => ?_⟩
  · rcases hmem b hb with hb | hb
    · exact h.carries b hb
    · exact hb ▸ hcarries
  · rcases hmem b hb with hb | hb
    · exact h.notFlooded b hb
    · exact hb ▸ hport

end

namespace McastSnooping.Learned

variable {carries : Nat → UInt16 → Prop} {ms : McastSnooping}

theorem withGroups (h : ms.Learned carries) {groupLru : List McastGroup}
    (hgroups : ∀ grp ∈ groupLru, grp.Learned carries ms.fportList) :
    McastSnooping.Learned carries { ms with groupLru := groupLru } :=
  { h with groups := hgroups }

variable {vlan : UInt16} {port : Nat}

theorem lookup (h : ms.Learned carries) {dip : In6Addr} {grp : McastGroup} (hgrp : ms.lookup dip vlan = some grp) :
    grp.Learned carries ms.fportList ∧ grp.vlan = vlan := by
  have hkey := find?_some hgrp
  simp only [Bool.and_eq_true, decide_eq_true_eq] at hkey
  exact ⟨h.groups grp (mem_of_find?_eq_some hgrp), hkey.1⟩

theorem addGroup (h : ms.Learned carries) (hcarries : carries port vlan) (addr : In6Addr) (now : Int) :
    (ms.addGroup addr vlan port now).Learned carries := by
  rw [McastSnooping.addGroup]
  split
  · exact h
  next hcond =>
    have hport : port ∉ ms.fportList := by
      simp_all
    split
    · next grp hgrp =>
      obtain ⟨hlearned, hvlan⟩ := h.lookup hgrp
      refine h.withGroups fun g hg => ?_
      rcases mem_append.1 hg with hg | hg
      · exact h.groups g (eraseP_subset hg)
      · cases mem_singleton.1 hg
        exact hlearned.insertBundle (hvlan.symm ▸ hcarries) hport _
    refine h.withGroups fun g hg => ?_
    rcases mem_append.1 hg with hg | hg
    · refine h.groups g ?_
      split at hg
      · exact mem_of_mem_tail hg
      · exact hg
    · cases mem_singleton.1 hg
      have hnew : McastGroup.Learned carries ms.fportList { addr := addr, vlan := vlan, bundleLru := [] } :=
        ⟨nodup_nil, forall_mem_nil _, forall_mem_nil _⟩
      exact hnew.insertBundle hcarries hport _

theorem replaceF_forall {α : Type} {P : α → Prop} {f : α → Option α} (hf : ∀ x y, P x → f x = some y → P y) :
    ∀ {l : List α}, (∀ x ∈ l, P x) → ∀ y ∈ l.replaceF f, P y
  | x :: l, h, y, hy => by
    rw [List.replaceF] at hy
    have hx := h x mem_cons_self
    split at hy
    · rcases mem_cons.1 hy with rfl | hy
      · exact hx
      · exact replaceF_forall hf (fun z hz => h z (mem_cons_of_mem _ hz)) y hy
    · grind

theorem leaveGroup (h : ms.Learned carries) (addr : In6Addr) (vlan : UInt16) (port : Nat) :
    (ms.leaveGroup addr vlan port).Learned carries := by
  rw [McastSnooping.leaveGroup]
  split
  · exact h
  refine h.withGroups (replaceF_forall (fun grp grp' hgrp heq => ?_) h.groups)
  split at heq
  · cases heq
    exact hgrp.sublist eraseP_sublist
  · cases heq

theorem addMrouter (h : ms.Learned carries) (hcarries : carries port vlan) (now : Int) :
    (ms.addMrouter vlan port now).Learned carries := by
  rw [McastSnooping.addMrouter]
  split
  · exact h
  next hport =>
    have hmem : ∀ m ∈ ms.mrouterLru.eraseP (fun m => m.vlan = vlan && m.port = port)
          ++ [{ expires := now + mcastMrouterPortIdleTime, vlan := vlan, port := port }],
        m ∈ ms.mrouterLru ∨ (m.vlan = vlan ∧ m.port = port) := by
      grind
    refine { h with mrouters := ?_, mroutersCarry := fun m hm => ?_, mroutersNotFlooded := fun m hm => ?_ }
    · exact nodup_eraseP_append h.mrouters fun m => by simp
    · rcases hmem m hm with hm | ⟨hvlan, hp⟩
      · exact h.mroutersCarry m hm
      · exact hvlan ▸ hp ▸ hcarries
    · rcases hmem m hm with hm | ⟨-, hp⟩
      · exact h.mroutersNotFlooded m hm
      · exact hp ▸ hport

theorem applyRecord (h : ms.Learned carries) (hcarries : carries port vlan) (now : Int) (r : McastRecord) :
    (McastSnooping.applyRecord vlan port now ms r).Learned carries := by
  cases r with
  | add addr => exact h.addGroup hcarries addr now
  | leave addr => exact h.leaveGroup addr vlan port

theorem runGroups {fportList : List Nat} (maxEntries : Nat) (now : Int) :
    ∀ {groupLru : List McastGroup}, (∀ grp ∈ groupLru, grp.Learned carries fportList) →
    ∀ grp ∈ McastSnooping.runGroups maxEntries now groupLru, grp.Learned carries fportList
  | grp :: grps, h, g, hg => by
    have hrest : ∀ g ∈ grps, g.Learned carries fportList := fun g hg => h g (mem_cons_of_mem _ hg)
    rw [McastSnooping.runGroups] at hg
    split at hg
    · exact runGroups maxEntries now hrest g hg
    split at hg
    · exact runGroups maxEntries now hrest g hg
    · next b bs hdrop =>
      rcases mem_cons.1 hg with rfl | hg
      · exact (h grp mem_cons_self).sublist (hdrop ▸ dropWhile_sublist _)
      · exact hrest g hg

theorem run (h : ms.Learned carries) (now : Int) : (ms.run now).Learned carries := by
  have hsub : (ms.mrouterLru.dropWhile (·.expires ≤ now)).Sublist ms.mrouterLru := dropWhile_sublist _
  exact
    { h with
      groups := runGroups ms.maxEntries now h.groups
      mrouters := (hsub.map _).nodup h.mrouters
      mroutersCarry := fun m hm => h.mroutersCarry m (hsub.subset hm)
      mroutersNotFlooded := fun m hm => h.mroutersNotFlooded m (hsub.subset hm) }

theorem mdbFlush (h : ms.Learned carries) : ms.mdbFlush.Learned carries :=
  { h with
    groups := forall_mem_nil _
    mrouters := nodup_nil
    mroutersCarry := forall_mem_nil _
    mroutersNotFlooded := forall_mem_nil _ }

end McastSnooping.Learned

end LinkerOvs.L2
