/-
NORMAL forwarding delivers within a VLAN and once: addresses and multicast members are learned only on
bundles that carry the VLAN, so what is learned can be used as it stands; the ports of multicast routers
and the configured flood and report ports are used in every VLAN and together, and there the tables
themselves have to be without overlaps.
-/
import LinkerOvs.Xlate.Normal

namespace LinkerOvs.Xlate

open L2 List

/-! ## What is learned -/

/-- The bundle `p` exists and carries the VLAN. -/
def Carries (br : Bundles) (p : Nat) (vlan : UInt16) : Prop :=
  ∃ b, xbundleLookup br p = some b ∧ xbundleIncludesVlan b vlan = true

variable {b : Xbundle} {s : Tables} {port : Nat} {bs bs' : List Xbundle}
  {br : Bundles} {vlan : UInt16} {ml : MacLearning} {inBundle : Option Xbundle} {ms : McastSnooping}

theorem xbundleLookup_ofbundle {p : Nat} (h : xbundleLookup br p = some b) : b.ofbundle = p := by
  simpa using find?_some h

theorem xbundleLookup_self (hb : b ∈ br.xbundles) : xbundleLookup br b.ofbundle = some b := by
  cases hl : xbundleLookup br b.ofbundle with
  | none =>
    have := find?_eq_none.1 hl b hb
    simp at this
  | some b' =>
    have hb' := mem_of_find?_eq_some hl
    rw [inj_on_of_nodup_map br.nodup hb' hb (xbundleLookup_ofbundle hl)]

theorem lookupInputBundle_mem {inPort : UInt16} (h : lookupInputBundle br inPort = some (some b)) :
    b ∈ br.xbundles := by
  rw [lookupInputBundle] at h
  grind

theorem includesVlan_of_valid {vid : UInt16} (h : inputVidIsValid vid (some b) = true) :
    xbundleIncludesVlan b (inputVidToVlan (some b) vid) = true := by
  have hown : b.vlanMode ≠ .trunk → xbundleIncludesVlan b (.ofNat b.vlan.toNat) = true := by
    intro hmode
    have hrange := b.vlanRange.resolve_left hmode
    rw [xbundleIncludesVlan, Bool.or_eq_true, decide_eq_true_eq]
    refine .inl ?_
    rw [UInt16.toNat_ofNat_of_lt' (by simp [UInt16.size]; omega)]
    omega
  simp only [inputVidIsValid] at h
  simp only [inputVidToVlan]
  grind

theorem carries_of_valid {inPort vid : UInt16}
    (hin : lookupInputBundle br inPort = some (some b)) (hvid : inputVidIsValid vid (some b) = true) :
    Carries br b.ofbundle (inputVidToVlan (some b) vid) :=
  ⟨b, xbundleLookup_self (lookupInputBundle_mem hin), includesVlan_of_valid hvid⟩

theorem carries_of_entered {x : NormalIn}
    (h : normalAdmit br ml x = some (some b, vlan)) : Carries br b.ofbundle vlan := by
  rw [normalAdmit] at h
  split at h
  · cases h
  next inBundle hin =>
  split at h
  · cases h
  split at h
  · cases h
  dsimp only at h
  split at h
  · next hvid =>
    split at h
    · cases h
      exact carries_of_valid hin hvid
    · cases h
  · cases h

/-- What is learned is on bundles that carry the VLAN it was learned in. -/
structure Tables.Ok (br : Bundles) (s : Tables) : Prop where
  macs : s.ml.Learned (Carries br)
  mcast : ∀ ms, s.ms = some ms → ms.Learned (Carries br)

theorem Tables.Fresh.ok (h : s.Fresh) (br : Bundles) : s.Ok br where
  macs e he := by
    rw [h.macs] at he
    cases he
  mcast ms hms :=
    { fports := h.fports ms hms
      rports := h.rports ms hms
      mrouters := by simp [h.mrouters ms hms]
      mroutersCarry := by simp [h.mrouters ms hms]
      mroutersNotFlooded := by simp [h.mrouters ms hms]
      groups := by simp [h.groups ms hms] }

theorem updateLearningTable_learned (h : ml.Learned (Carries br)) (x : NormalIn)
    (hin : ∀ b, inBundle = some b → Carries br b.ofbundle vlan) :
    (updateLearningTable ml x vlan inBundle).Learned (Carries br) := by
  cases inBundle with
  | none => exact h
  | some b =>
    have hport := hin b rfl
    have hrest := h.insert_snd x.flow.dlSrc vlan x.now x.heapMax
    obtain ⟨hvlan, hold⟩ := h.insert_fst x.flow.dlSrc vlan x.now x.heapMax
    have hnew : ∀ p, some b.ofbundle = some p → Carries br p (ml.insert x.flow.dlSrc vlan x.now x.heapMax).1.vlan := by
      simp [*]
    rw [updateLearningTable]
    split
    · rw [updateLearningTableSlow]
      split
      · dsimp only
        split
        · exact hrest.push hnew
        · split
          · exact hrest.push fun p hp => hvlan.symm ▸ hold p hp
          · exact hrest.push hnew
      · exact h
    · exact h

theorem applyRecords_learned (hport : Carries br port vlan) (now : Int) :
    ∀ (records : List McastRecord) {ms : McastSnooping}, ms.Learned (Carries br) →
    (records.foldl (McastSnooping.applyRecord vlan port now) ms).Learned (Carries br)
  | [], _, h => h
  | r :: records, _, h => applyRecords_learned hport now records (h.applyRecord hport now r)

theorem updateMcastSnoopingTable4_learned (h : ms.Learned (Carries br))
    (flow : L2Flow) (now : Int) (hport : Carries br port vlan) (records : List McastRecord) :
    (updateMcastSnoopingTable4 ms flow now vlan port records).Learned (Carries br) := by
  rw [updateMcastSnoopingTable4]
  split
  · exact h.addGroup hport _ _
  split
  · exact h.leaveGroup _ _ _
  split
  · split
    · exact h.addMrouter hport now
    · exact h
  · split
    · exact applyRecords_learned hport now records h
    · exact h

theorem updateMcastSnoopingTable6_learned (h : ms.Learned (Carries br))
    (flow : L2Flow) (now : Int) (hport : Carries br port vlan) (records : List McastRecord) :
    (updateMcastSnoopingTable6 ms flow now vlan port records).Learned (Carries br) := by
  rw [updateMcastSnoopingTable6]
  split
  · split
    · exact h.addMrouter hport now
    · exact h
  · split
    · exact applyRecords_learned hport now records h
    · exact h

theorem updateMcastSnoopingTable_learned (h : ms.Learned (Carries br)) (x : NormalIn)
    (hin : ∀ b, inBundle = some b → Carries br b.ofbundle vlan) (records : List McastRecord) :
    (updateMcastSnoopingTable ms x vlan inBundle records).Learned (Carries br) := by
  cases inBundle with
  | none => exact h
  | some b =>
    have hport := hin b rfl
    rw [updateMcastSnoopingTable]
    split
    · exact h
    · split
      · exact updateMcastSnoopingTable4_learned h x.flow x.now hport records
      · exact updateMcastSnoopingTable6_learned h x.flow x.now hport records

theorem normalLearn_ok (h : s.Ok br) (x : NormalIn) (hin : ∀ b, inBundle = some b → Carries br b.ofbundle vlan) :
    (normalLearn s x inBundle vlan).Ok br := by
  refine ⟨?_, fun ms hms => ?_⟩
  · rw [normalLearn]
    split
    · exact updateLearningTable_learned h.macs x hin
    · exact h.macs
  · rw [normalLearn] at hms
    dsimp only at hms
    split at hms
    · next ms₀ records hms₀ _ =>
      split at hms
      · cases hms
        exact updateMcastSnoopingTable_learned (h.mcast ms₀ hms₀) x hin records
      · cases hms
        exact h.mcast ms hms₀
    · exact h.mcast ms hms

theorem xlateNormal_ok (h : s.Ok br) (x : NormalIn) : (xlateNormal br s x).1.Ok br := by
  rw [xlateNormal]
  split
  · exact h
  · next inBundle vlan hentered =>
    refine normalLearn_ok h x ?_
    rintro b rfl
    exact carries_of_entered hentered

theorem tableStep_ok (h : s.Ok br) (e : TableEvent) : (tableStep br s e).Ok br := by
  cases e with
  | packet x => exact xlateNormal_ok h x
  | cacheNormal x =>
    rw [tableStep]
    split
    · next inBundle hin =>
      dsimp only
      split
      · next hvid =>
        refine ⟨updateLearningTable_learned h.macs x ?_, h.mcast⟩
        rintro b rfl
        exact carries_of_valid hin hvid
      · exact h
    · exact h
  | macRun now => exact ⟨h.macs.run now, h.mcast⟩
  | mcastRun now =>
    refine ⟨h.macs, fun ms hms => ?_⟩
    obtain ⟨ms₀, hms₀, rfl⟩ := Option.map_eq_some_iff.1 hms
    exact (h.mcast ms₀ hms₀).run now
  | macFlush => exact ⟨MacLearning.Learned.flush s.ml, h.mcast⟩
  | mcastFlush =>
    refine ⟨h.macs, fun ms hms => ?_⟩
    obtain ⟨ms₀, hms₀, rfl⟩ := Option.map_eq_some_iff.1 hms
    exact (h.mcast ms₀ hms₀).mdbFlush

theorem LearnedTables.ok (h : LearnedTables br s) : s.Ok br := by
  obtain ⟨s₀, es, hfresh, hrun⟩ := h
  exact hrun.invariant (fun s e s' hs hstep => hstep ▸ tableStep_ok hs e) (hfresh.ok br)

/-! ## Lists of bundles -/

def Distinct (bs : List Xbundle) : Prop := (bs.map (·.ofbundle)).Nodup

def Apart (bs bs' : List Xbundle) : Prop := ∀ b ∈ bs, ∀ b' ∈ bs', b.ofbundle ≠ b'.ofbundle

def AllCarry (vlan : UInt16) (bs : List Xbundle) : Prop := ∀ b ∈ bs, xbundleIncludesVlan b vlan = true

instance (bs : List Xbundle) : Decidable (Distinct bs) := inferInstanceAs (Decidable (List.Nodup _))

instance (bs bs' : List Xbundle) : Decidable (Apart bs bs') :=
  inferInstanceAs (Decidable (∀ b ∈ bs, ∀ b' ∈ bs', b.ofbundle ≠ b'.ofbundle))

instance (vlan : UInt16) (bs : List Xbundle) : Decidable (AllCarry vlan bs) :=
  inferInstanceAs (Decidable (∀ b ∈ bs, xbundleIncludesVlan b vlan = true))

theorem distinct_append : Distinct (bs ++ bs') ↔ Distinct bs ∧ Distinct bs' ∧ Apart bs bs' := by
  simp [Distinct, Apart, nodup_append]

theorem allCarry_append : AllCarry vlan (bs ++ bs') ↔ AllCarry vlan bs ∧ AllCarry vlan bs' :=
  forall_mem_append

theorem apart_append {bs₁ bs₂ : List Xbundle} : Apart (bs ++ bs₁) bs₂ ↔ Apart bs bs₂ ∧ Apart bs₁ bs₂ :=
  forall_mem_append

theorem Apart.symm (h : Apart bs bs') : Apart bs' bs :=
  fun b hb b' hb' heq => h b' hb' b hb heq.symm

theorem Distinct.sublist (h : Distinct bs) (hsub : bs'.Sublist bs) : Distinct bs' :=
  (hsub.map _).nodup h

section

variable (br : Bundles) (inBundle : Option Xbundle) (vlan : UInt16) (flow : L2Flow)

/-- The bundles among `bs` that have a port to output on. -/
def receivers (bs : List Xbundle) : List Xbundle := bs.filter fun b => (outputNormal flow vlan b).isSome

theorem receivers_append (bs bs' : List Xbundle) :
    receivers vlan flow (bs ++ bs') = receivers vlan flow bs ++ receivers vlan flow bs' :=
  filter_append ..

theorem map_xbundle_outputs : ∀ bs : List Xbundle,
    (bs.filterMap (outputNormal flow vlan)).map (·.xbundle) = receivers vlan flow bs
  | [] => rfl
  | b :: bs => by
    have ih := map_xbundle_outputs bs
    rw [receivers, filter_cons, filterMap_cons]
    cases ho : outputNormal flow vlan b with
    | none => simpa [receivers] using ih
    | some o =>
      have hb : o.xbundle = b := by
        obtain ⟨port, -, rfl⟩ := Option.map_eq_some_iff.1 ho
        rfl
      simpa [hb, receivers] using ih

theorem filterMap_lookup_sublist : ∀ ports : List Nat,
    ((ports.filterMap (xbundleLookup br)).map (·.ofbundle)).Sublist ports
  | [] => List.Sublist.refl _
  | p :: ports => by
    have ih := filterMap_lookup_sublist ports
    rw [filterMap_cons]
    split
    · exact ih.cons p
    · next b hb =>
      rw [map_cons, xbundleLookup_ofbundle hb]
      exact ih.cons_cons p

variable {ports : List Nat}

theorem ofbundle_mem_of_mem_sendToPorts {b : Xbundle} (hb : b ∈ receivers vlan flow (sendToPorts br inBundle ports)) :
    xbundleLookup br b.ofbundle = some b ∧ b.ofbundle ∈ ports := by
  have hb := (mem_filter.1 (mem_filter.1 hb).1).1
  obtain ⟨p, hp, hlookup⟩ := mem_filterMap.1 hb
  rw [xbundleLookup_ofbundle hlookup]
  exact ⟨hlookup, hp⟩

theorem distinct_sendToPorts (h : ports.Nodup) : Distinct (receivers vlan flow (sendToPorts br inBundle ports)) := by
  have hlookup : Distinct (ports.filterMap (xbundleLookup br)) := (filterMap_lookup_sublist br ports).nodup h
  exact hlookup.sublist (filter_sublist.trans filter_sublist)

theorem apart_sendToPorts {ports' : List Nat} (h : ∀ p ∈ ports, p ∉ ports') :
    Apart (receivers vlan flow (sendToPorts br inBundle ports))
      (receivers vlan flow (sendToPorts br inBundle ports')) := by
  intro b hb b' hb' heq
  have hb := (ofbundle_mem_of_mem_sendToPorts br inBundle vlan flow hb).2
  have hb' := (ofbundle_mem_of_mem_sendToPorts br inBundle vlan flow hb').2
  exact h _ hb (heq ▸ hb')

theorem allCarry_sendToPorts (h : ∀ p ∈ ports, Carries br p vlan) :
    AllCarry vlan (receivers vlan flow (sendToPorts br inBundle ports)) := by
  intro b hb
  obtain ⟨hlookup, hmem⟩ := ofbundle_mem_of_mem_sendToPorts br inBundle vlan flow hb
  obtain ⟨b', hlookup', hincludes⟩ := h _ hmem
  simp_all

theorem distinct_flood : Distinct (receivers vlan flow (xlateNormalFlood br inBundle vlan)) :=
  Distinct.sublist br.nodup (filter_sublist.trans filter_sublist)

theorem allCarry_flood : AllCarry vlan (receivers vlan flow (xlateNormalFlood br inBundle vlan)) := by
  intro b hb
  have hb := (mem_filter.1 (mem_filter.1 hb).1).2
  simp_all

/-! ## When delivery is right -/

/-- Reports go to the routers and to the report ports: together they have to be without repetitions, in the
packet's VLAN. -/
def ReportsOk (ms : McastSnooping) : Prop :=
  let routers := receivers vlan flow (xlateNormalMcastSendMrouters br inBundle ms)
  let reports := receivers vlan flow (xlateNormalMcastSendRports br inBundle ms)
  Distinct routers ∧ AllCarry vlan routers ∧ AllCarry vlan reports ∧ Apart routers reports

instance (ms : McastSnooping) : Decidable (ReportsOk br inBundle vlan flow ms) :=
  inferInstanceAs (Decidable (_ ∧ _ ∧ _ ∧ _))

/-- Packets to a group go to its members, the flood ports and the routers; without members, to the flood ports
and the routers, unless unregistered packets are flooded. -/
def GroupOk (ms : McastSnooping) : Prop :=
  let routers := receivers vlan flow (xlateNormalMcastSendMrouters br inBundle ms)
  let fports := receivers vlan flow (xlateNormalMcastSendFports br inBundle ms)
  match mcastGroup vlan ms flow with
  | some grp =>
    Distinct routers ∧ AllCarry vlan routers ∧ AllCarry vlan fports ∧
      Apart (receivers vlan flow (xlateNormalMcastSendGroup br inBundle grp)) routers
  | none => ms.floodUnreg = true ∨ (Distinct routers ∧ AllCarry vlan routers ∧ AllCarry vlan fports)

/-- The bundles that a packet addressed to a group is for. -/
def groupReceivers (ms : McastSnooping) : List Xbundle :=
  let routers := receivers vlan flow (xlateNormalMcastSendMrouters br inBundle ms)
  let fports := receivers vlan flow (xlateNormalMcastSendFports br inBundle ms)
  match mcastGroup vlan ms flow with
  | some grp => receivers vlan flow (xlateNormalMcastSendGroup br inBundle grp) ++ fports ++ routers
  | none => if ms.floodUnreg then receivers vlan flow (xlateNormalFlood br inBundle vlan) else routers ++ fports

/-- The bundles that MLD messages are for. -/
def mldReceivers (ms : McastSnooping) : List Xbundle :=
  if flow.isMldReport then
    receivers vlan flow (xlateNormalMcastSendMrouters br inBundle ms)
      ++ receivers vlan flow (xlateNormalMcastSendRports br inBundle ms)
  else receivers vlan flow (xlateNormalFlood br inBundle vlan)

/-- What the tables have to satisfy for the packet: nothing unless it is snooped. An MLD message is sent twice,
as such and as a packet to its group, so that the two have to be for different bundles. -/
def DeliveryOk (s : Tables) : Prop :=
  ∀ ms, s.ms = some ms → mcastSnooped flow = true →
    if flow.isIgmp then mcastSnoopingIsMembership flow.tpSrc = true → ReportsOk br inBundle vlan flow ms
    else if flow.isMld then
      (flow.isMldReport = true → ReportsOk br inBundle vlan flow ms) ∧ GroupOk br inBundle vlan flow ms ∧
        Apart (mldReceivers br inBundle vlan flow ms) (groupReceivers br inBundle vlan flow ms)
    else flow.isLocalMulticast = true ∨ GroupOk br inBundle vlan flow ms

/-- Each bundle gets the packet at most once, the input bundle does not get it, and only bundles that carry
the VLAN do. -/
structure DeliversOnce (outs : List NormalOut) : Prop where
  once : (outs.map (·.xbundle.ofbundle)).Nodup
  notInput : ∀ o ∈ outs, isOther inBundle o.xbundle = true
  carries : ∀ o ∈ outs, xbundleIncludesVlan o.xbundle vlan = true

variable {br inBundle vlan flow}

theorem reports_iff (h : ms.Learned (Carries br)) :
    Distinct (receivers vlan flow (xlateNormalMcastSendMrouters br inBundle ms
        ++ xlateNormalMcastSendRports br inBundle ms)) ∧
      AllCarry vlan (receivers vlan flow (xlateNormalMcastSendMrouters br inBundle ms
        ++ xlateNormalMcastSendRports br inBundle ms)) ↔ ReportsOk br inBundle vlan flow ms := by
  have hreports : Distinct (receivers vlan flow (xlateNormalMcastSendRports br inBundle ms)) :=
    distinct_sendToPorts br inBundle vlan flow h.rports
  rw [receivers_append, distinct_append, allCarry_append, ReportsOk]
  tauto

theorem mcastGroup_learned (h : ms.Learned (Carries br)) {grp : McastGroup}
    (hgrp : mcastGroup vlan ms flow = some grp) : grp.Learned (Carries br) ms.fportList ∧ grp.vlan = vlan := by
  rw [mcastGroup] at hgrp
  split at hgrp
  · exact h.lookup hgrp
  · split at hgrp
    · exact h.lookup hgrp
    · cases hgrp

theorem receivers_normalMcastGroup :
    receivers vlan flow (normalMcastGroup br inBundle vlan ms flow) = groupReceivers br inBundle vlan flow ms := by
  rw [normalMcastGroup, groupReceivers]
  cases mcastGroup vlan ms flow with
  | some grp => simp only [receivers_append]
  | none =>
    cases ms.floodUnreg with
    | true => rfl
    | false => simp only [Bool.false_eq_true, if_false, receivers_append]

/-- Members of a group were learned in its VLAN, and are neither flood ports nor, like those, listed twice. -/
theorem group_iff (h : ms.Learned (Carries br)) :
    Distinct (groupReceivers br inBundle vlan flow ms) ∧ AllCarry vlan (groupReceivers br inBundle vlan flow ms) ↔
      GroupOk br inBundle vlan flow ms := by
  have hfports : Distinct (receivers vlan flow (xlateNormalMcastSendFports br inBundle ms)) :=
    distinct_sendToPorts br inBundle vlan flow h.fports
  have hrouters : Apart (receivers vlan flow (xlateNormalMcastSendMrouters br inBundle ms))
      (receivers vlan flow (xlateNormalMcastSendFports br inBundle ms)) := by
    refine apart_sendToPorts br inBundle vlan flow fun p hp => ?_
    obtain ⟨m, hm, rfl⟩ := mem_map.1 hp
    exact h.mroutersNotFlooded m hm
  rw [groupReceivers, GroupOk]
  cases hgrp : mcastGroup vlan ms flow with
  | some grp =>
    obtain ⟨hlearned, hvlan⟩ := mcastGroup_learned h hgrp
    have hdistinct : Distinct (receivers vlan flow (xlateNormalMcastSendGroup br inBundle grp)) :=
      distinct_sendToPorts br inBundle vlan flow hlearned.nodup
    have hcarry : AllCarry vlan (receivers vlan flow (xlateNormalMcastSendGroup br inBundle grp)) := by
      refine allCarry_sendToPorts br inBundle vlan flow fun p hp => ?_
      obtain ⟨b, hb, rfl⟩ := mem_map.1 hp
      exact hvlan ▸ hlearned.carries b hb
    have hapart : Apart (receivers vlan flow (xlateNormalMcastSendGroup br inBundle grp))
        (receivers vlan flow (xlateNormalMcastSendFports br inBundle ms)) := by
      refine apart_sendToPorts br inBundle vlan flow fun p hp => ?_
      obtain ⟨b, hb, rfl⟩ := mem_map.1 hp
      exact hlearned.notFlooded b hb
    have hrouters' := hrouters.symm
    simp only [distinct_append, allCarry_append, apart_append]
    tauto
  | none =>
    have hflood := distinct_flood br inBundle vlan flow
    have hflood' := allCarry_flood br inBundle vlan flow
    cases ms.floodUnreg with
    | true => simp [hflood, hflood']
    | false =>
      simp only [Bool.false_eq_true, if_false, distinct_append, allCarry_append]
      tauto

theorem mld_iff (h : ms.Learned (Carries br)) :
    Distinct (mldReceivers br inBundle vlan flow ms) ∧ AllCarry vlan (mldReceivers br inBundle vlan flow ms) ↔
      (flow.isMldReport = true → ReportsOk br inBundle vlan flow ms) := by
  rw [mldReceivers]
  cases flow.isMldReport with
  | true => simpa [receivers_append] using reports_iff h
  | false => simp [distinct_flood, allCarry_flood]

variable (inBundle vlan flow) in
theorem unicast_distinct_carry (h : ml.Learned (Carries br)) :
    Distinct (receivers vlan flow (normalUnicast br inBundle vlan ml flow)) ∧
      AllCarry vlan (receivers vlan flow (normalUnicast br inBundle vlan ml flow)) := by
  rw [normalUnicast]
  cases hport : (ml.lookup flow.dlDst vlan).bind (·.port) with
  | none => exact ⟨distinct_flood br inBundle vlan flow, allCarry_flood br inBundle vlan flow⟩
  | some port =>
    obtain ⟨e, he, hp⟩ := Option.bind_eq_some_iff.1 hport
    refine ⟨distinct_sendToPorts br inBundle vlan flow (nodup_singleton port), ?_⟩
    refine allCarry_sendToPorts br inBundle vlan flow fun p hmem => ?_
    cases mem_singleton.1 hmem
    exact h.lookup he hp

variable (inBundle vlan flow) in
theorem mcast_iff (h : ms.Learned (Carries br)) :
    Distinct (receivers vlan flow (normalMcast br inBundle vlan ms flow)) ∧
        AllCarry vlan (receivers vlan flow (normalMcast br inBundle vlan ms flow)) ↔
      if flow.isIgmp then mcastSnoopingIsMembership flow.tpSrc = true → ReportsOk br inBundle vlan flow ms
      else if flow.isMld then
        (flow.isMldReport = true → ReportsOk br inBundle vlan flow ms) ∧ GroupOk br inBundle vlan flow ms ∧
          Apart (mldReceivers br inBundle vlan flow ms) (groupReceivers br inBundle vlan flow ms)
      else flow.isLocalMulticast = true ∨ GroupOk br inBundle vlan flow ms := by
  have hflood := distinct_flood br inBundle vlan flow
  have hflood' := allCarry_flood br inBundle vlan flow
  rw [normalMcast]
  split
  · split
    · next hmember => simpa [hmember] using reports_iff h
    · next hmember => simp [hmember, hflood, hflood']
  split
  · -- the first of the two rounds
    have hmld : receivers vlan flow
        (if flow.isMldReport then
            xlateNormalMcastSendMrouters br inBundle ms ++ xlateNormalMcastSendRports br inBundle ms
          else xlateNormalFlood br inBundle vlan) = mldReceivers br inBundle vlan flow ms := by
      rw [mldReceivers, ← receivers_append]
      split <;> rfl
    rw [receivers_append, hmld, receivers_normalMcastGroup, distinct_append, allCarry_append, ← mld_iff h,
      ← group_iff h]
    tauto
  · split
    · next hlocal => simp [hlocal, hflood, hflood']
    · next hlocal =>
      rw [receivers_normalMcastGroup, group_iff h]
      simp [hlocal]

theorem send_iff {s : Tables} (h : s.Ok br) :
    Distinct (receivers vlan flow (normalSend br inBundle vlan s flow)) ∧
        AllCarry vlan (receivers vlan flow (normalSend br inBundle vlan s flow)) ↔
      DeliveryOk br inBundle vlan flow s := by
  have hunicast := unicast_distinct_carry inBundle vlan flow h.macs
  rw [normalSend, DeliveryOk]
  cases hms : s.ms with
  | none => simpa using hunicast
  | some ms =>
    have hmcast := mcast_iff inBundle vlan flow (h.mcast ms hms)
    grind

theorem isOther_sendToPorts (ports : List Nat) : ∀ b ∈ sendToPorts br inBundle ports, isOther inBundle b = true :=
  fun _ hb => (mem_filter.1 hb).2

theorem isOther_flood : ∀ b ∈ xlateNormalFlood br inBundle vlan, isOther inBundle b = true := by
  intro b hb
  have hb := (mem_filter.1 hb).2
  simp only [Bool.and_eq_true] at hb
  exact hb.1.1.1

theorem isOther_normalMcastGroup : ∀ b ∈ normalMcastGroup br inBundle vlan ms flow, isOther inBundle b = true := by
  rw [normalMcastGroup]
  split
  · simp only [forall_mem_append]
    exact ⟨⟨isOther_sendToPorts _, isOther_sendToPorts _⟩, isOther_sendToPorts _⟩
  · split
    · exact isOther_flood
    · exact forall_mem_append.2 ⟨isOther_sendToPorts _, isOther_sendToPorts _⟩

theorem isOther_normalMcast : ∀ b ∈ normalMcast br inBundle vlan ms flow, isOther inBundle b = true := by
  have hreports : ∀ b ∈ xlateNormalMcastSendMrouters br inBundle ms ++ xlateNormalMcastSendRports br inBundle ms,
      isOther inBundle b = true :=
    forall_mem_append.2 ⟨isOther_sendToPorts _, isOther_sendToPorts _⟩
  rw [normalMcast]
  split
  · split
    · exact hreports
    · exact isOther_flood
  split
  · refine forall_mem_append.2 ⟨?_, isOther_normalMcastGroup⟩
    split
    · exact hreports
    · exact isOther_flood
  · split
    · exact isOther_flood
    · exact isOther_normalMcastGroup

theorem isOther_normalUnicast :
    ∀ b ∈ normalUnicast br inBundle vlan ml flow, isOther inBundle b = true := by
  rw [normalUnicast]
  split
  · exact isOther_sendToPorts _
  · exact isOther_flood

theorem isOther_normalSend {s : Tables} : ∀ b ∈ normalSend br inBundle vlan s flow, isOther inBundle b = true := by
  rw [normalSend]
  split
  · split
    · exact isOther_normalMcast
    · exact isOther_normalUnicast
  · exact isOther_normalUnicast

theorem deliversOnce_iff {bs : List Xbundle} (hother : ∀ b ∈ bs, isOther inBundle b = true) :
    DeliversOnce inBundle vlan (bs.filterMap (outputNormal flow vlan)) ↔
      Distinct (receivers vlan flow bs) ∧ AllCarry vlan (receivers vlan flow bs) := by
  have hmap := map_xbundle_outputs vlan flow bs
  have hmem : ∀ o ∈ bs.filterMap (outputNormal flow vlan), o.xbundle ∈ receivers vlan flow bs :=
    fun o ho => hmap ▸ mem_map_of_mem ho
  have honce : (bs.filterMap (outputNormal flow vlan)).map (·.xbundle.ofbundle)
      = (receivers vlan flow bs).map (·.ofbundle) := by
    rw [← hmap, map_map]
    rfl
  constructor
  · intro h
    refine ⟨?_, fun b hb => ?_⟩
    · rw [Distinct, ← honce]
      exact h.once
    · rw [← hmap] at hb
      obtain ⟨o, ho, rfl⟩ := mem_map.1 hb
      exact h.carries o ho
  · rintro ⟨hdistinct, hcarry⟩
    refine ⟨?_, fun o ho => ?_, fun o ho => ?_⟩
    · rw [honce]
      exact hdistinct
    · exact hother _ (mem_filter.1 (hmem o ho)).1
    · exact hcarry _ (hmem o ho)

end

/-- An access port of `vlan`. -/
def accessBundle (port : UInt16) (vlan : UInt16) (h : vlan.toNat ≤ 4095) : Xbundle where
  ofbundle := port.toNat
  xports := [port]
  bond := none
  vlanMode := .access
  vlan := vlan.toNat
  trunks := none
  usePriorityTags := false
  floodable := true
  mirrorOut := false
  vlanRange := .inr ⟨Int.natCast_nonneg _, Int.ofNat_le.2 h⟩

/-- Ports 1 and 2 are in VLAN 10, port 3 is in VLAN 20. -/
def twoVlans : Bundles where
  xbundles := [accessBundle 1 10 (by decide), accessBundle 2 10 (by decide), accessBundle 3 20 (by decide)]
  forwardBpdu := false
  nodup := by decide

/-- Snooping without flood or report ports, with the default of flooding unregistered packets. -/
def freshTables : Tables where
  ml := { lrus := [], floodVlans := fun _ => false, idleTime := 300, maxEntries := 2048 }
  ms := some
    { groupLru := [], mrouterLru := [], fportList := [], rportList := [], idleTime := 300, maxEntries := 2048,
      floodUnreg := true }

theorem freshTables_fresh : freshTables.Fresh := by
  refine ⟨rfl, ?_, ?_, ?_, ?_⟩ <;> rintro ms ⟨⟩
  · rfl
  · rfl
  · exact nodup_nil
  · exact nodup_nil

/-- An IGMP message of the given type that comes in on `inPort`. -/
def igmpPacket (inPort type : UInt16) : NormalIn where
  flow :=
    { inPort := inPort, dlSrc := 0x020000000000, dlDst := 0x01005e000001, dlType := ethTypeIp, vlanTci := 0,
      nwProto := ipprotoIgmp, nwSrc := 0x0a000001, nwDst := 0xe0000001, ipv6Src := 0, ipv6Dst := 0,
      tpSrc := type, igmpGroupIp4 := 0xe1010101 }
  mayLearn := true
  packet := some []
  now := 0
  heapMax := 0

/-- An MLD query that comes in on `inPort`. -/
def mldQueryPacket (inPort : UInt16) : NormalIn where
  flow :=
    { inPort := inPort, dlSrc := 0x020000000000, dlDst := 0x333300000001, dlType := ethTypeIpv6, vlanTci := 0,
      nwProto := ipprotoIcmpv6, nwSrc := 0, nwDst := 0, ipv6Src := 1, ipv6Dst := in6addrAllHosts,
      tpSrc := mldQuery.toUInt16, igmpGroupIp4 := 0 }
  mayLearn := true
  packet := some []
  now := 0
  heapMax := 0

/-- The tables once a router has been heard on port 1. -/
def routerTables : Tables := tableStep twoVlans freshTables (.packet (igmpPacket 1 igmpHostMembershipQuery))

theorem routerTables_learned : LearnedTables twoVlans routerTables :=
  ⟨freshTables, _, freshTables_fresh, .cons rfl (.nil _)⟩

/-- However they were learned, the tables name only ports that carry the VLAN, and a group names none twice and none
that is flooded anyway. -/
theorem learnedTables_carry (hs : LearnedTables br s) :
    (∀ e ∈ s.ml.lrus, ∀ p, e.port = some p → Carries br p e.vlan) ∧
    ∀ ms, s.ms = some ms → (∀ m ∈ ms.mrouterLru, Carries br m.port m.vlan ∧ m.port ∉ ms.fportList) ∧
      ∀ grp ∈ ms.groupLru, (grp.bundleLru.map (·.port)).Nodup ∧
        ∀ b ∈ grp.bundleLru, Carries br b.port grp.vlan ∧ b.port ∉ ms.fportList := by
  refine ⟨hs.ok.macs, fun ms hms => ?_⟩
  have hmcast := hs.ok.mcast ms hms
  refine ⟨fun m hm => ⟨hmcast.mroutersCarry m hm, hmcast.mroutersNotFlooded m hm⟩, fun grp hgrp => ?_⟩
  have hlearned := hmcast.groups grp hgrp
  exact ⟨hlearned.nodup, fun b hb => ⟨hlearned.carries b hb, hlearned.notFlooded b hb⟩⟩

theorem learnedTables_carry_router : ∃ ms m, routerTables.ms = some ms ∧ m ∈ ms.mrouterLru ∧
    Carries twoVlans m.port m.vlan :=
  ⟨_, _, rfl, .head _, (((learnedTables_carry routerTables_learned).2 _ rfl).1 _ (.head _)).1⟩

end LinkerOvs.Xlate
