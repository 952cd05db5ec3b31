/-
Adding a match to a subtable and taking one out (the parts of `classifier_replace` and `classifier_remove`
that work on one subtable) keep its invariant, and change its matches by exactly the one that comes, the
one that is displaced or the one that goes.
-/
import LinkerOvs.Classifier.RuleTable
import LinkerOvs.Classifier.SubtableInv

namespace LinkerOvs.Cls

open List

variable {H : FlowHash} {S : ClsSubtable} {c c' : Chain} {mask : Flow}

/-! ## One chain among the others -/

namespace ClsSubtable

/-- A subtable with other rules and indices. -/
structure Keeps (S S' : ClsSubtable) : Prop where
  mask : S'.mask = S.mask
  maxPriority : S'.maxPriority = S.maxPriority
  maxCount : S'.maxCount = S.maxCount
  triePlen : S'.triePlen = S.triePlen

theorem keeps_replaceHeadRule (c c' : Chain) : S.Keeps (S.replaceHeadRule H c c') := ⟨rfl, rfl, rfl, rfl⟩

theorem WF.clsMatches_perm (h : S.WF H) (hc : c ∈ S.rules) :
    S.clsMatches.Perm (c.list ++ (Keyed.erase Chain.flow c.flow S.rules).flatMap Chain.list) :=
  (Keyed.perm_of_mem h.flows hc).flatMap_right Chain.list

theorem WF.clsMatches_setChain (h : S.WF H) (hc : c ∈ S.rules) (hflow : c'.flow = c.flow) :
    (S.setChain c').clsMatches.Perm (c'.list ++ (Keyed.erase Chain.flow c.flow S.rules).flatMap Chain.list) :=
  (Keyed.set_perm h.flows hc hflow).flatMap_right Chain.list

end ClsSubtable

theorem Chain.flow_eq {f : Flow} (h : ∀ m ∈ c.list, m.rule.flow = f) : c.flow = f := h _ c.head_mem

/-- A new match between some matches of a chain above it and some below it. -/
theorem Chain.WF.splice (hwf : c.WF H mask) {new : ClsMatch} (hflow : new.rule.flow = c.flow)
    (hmask : new.rule.mask = mask) (hpri : intMin < new.priority) {before rest : List ClsMatch}
    (hsub : (before ++ rest).Sublist c.list) (hbefore : ∀ m ∈ before, new.priority ≤ m.priority)
    (hrest : ∀ m ∈ rest, m.priority ≤ new.priority) :
    (c.splice before new rest).flow = c.flow ∧ (c.splice before new rest).WF H mask := by
  have hmem : ∀ m ∈ (c.splice before new rest).list, m = new ∨ m ∈ c.list := by
    intro m hm
    rcases mem_append.1 hm with hm | hm
    · exact .inr (hsub.subset (mem_append_left _ hm))
    · grind
  have hall : ∀ m ∈ (c.splice before new rest).list, m.rule.flow = c.flow ∧ m.rule.mask = mask := by
    intro m hm
    rcases hmem m hm with rfl | hm
    · exact ⟨hflow, hmask⟩
    · exact hwf.same m hm
  have hspliced := Chain.flow_eq fun m hm => (hall m hm).1
  refine ⟨hspliced, fun m hm => ⟨(hall m hm).1.trans hspliced.symm, (hall m hm).2⟩, ?_, ?_, ?_⟩
  · have hsorted := pairwise_append.1 (hwf.sorted.sublist hsub)
    refine pairwise_append.2 ⟨hsorted.1, pairwise_cons.2 ⟨hrest, hsorted.2.1⟩, ?_⟩
    grind
  · intro m hm
    rcases hmem m hm with rfl | hm
    · exact hpri
    · exact hwf.above m hm
  · rw [hspliced]
    exact hwf.hash

namespace ClsSubtable

theorem WF.splice_ids (h : S.WF H) (hc : c ∈ S.rules) {new : ClsMatch}
    (hid : ∀ m ∈ S.clsMatches, m.rule.id ≠ new.rule.id) {before rest : List ClsMatch}
    (hsub : (before ++ rest).Sublist c.list) : (c.splice before new rest).ids.Nodup ∧
      ∀ id ∈ (c.splice before new rest).ids, id ∈ c.ids ∨ id ∉ S.rules.flatMap Chain.ids := by
  have hperm : (c.splice before new rest).ids.Perm (new.rule.id :: (before ++ rest).map fun m => m.rule.id) :=
    perm_middle.map _
  have hold : c.ids.Nodup := (nodup_flatMap.1 h.ids).1 c hc
  have hnew : new.rule.id ∉ S.rules.flatMap Chain.ids := by
    intro hmem
    obtain ⟨m, hm, hmid⟩ := mem_ids.1 hmem
    exact hid m hm hmid
  have hsubids : ((before ++ rest).map fun m => m.rule.id).Sublist c.ids := hsub.map _
  constructor
  · grind
  · grind

/-- What adding `new` to a subtable does to its chains and its matches. -/
inductive InsertSpec (S S' : ClsSubtable) (new : ClsMatch) : Inserted → Prop
  | head : S'.rules.map Chain.flow = new.rule.flow :: S.rules.map Chain.flow →
      S'.clsMatches.Perm (new :: S.clsMatches) → (∀ m ∈ S.clsMatches, ¬m.DisplacedBy new.rule) →
      InsertSpec S S' new (.head (S.rules.length + 1))
  | chained : S'.rules.map Chain.flow = S.rules.map Chain.flow → S.rules ≠ [] →
      S'.clsMatches.Perm (new :: S.clsMatches) → (∀ m ∈ S.clsMatches, ¬m.DisplacedBy new.rule) →
      InsertSpec S S' new .chained
  | replaced {old : ClsMatch} {rest : List ClsMatch} : S'.rules.map Chain.flow = S.rules.map Chain.flow →
      S.rules ≠ [] → S.clsMatches.Perm (old :: rest) → S'.clsMatches.Perm (new :: rest) →
      old.DisplacedBy new.rule → InsertSpec S S' new (.replaced old)

theorem before_iff {m : ClsMatch} {rule : ClsRule} : m.before rule = true ↔
    rule.priority ≤ m.priority ∧ (rule.priority = m.priority → m.isEventuallyInvisible = true) := by
  simp only [ClsMatch.before, Bool.not_eq_true', Bool.or_eq_false_iff, decide_eq_false_iff_not, gt_iff_lt, not_lt,
    Bool.and_eq_false_imp, decide_eq_true_eq, Bool.not_eq_false']

/-- The chain that a new match gets into, with its place. -/
theorem WF.replaceHeadRule_splice (h : S.WF H) (hc : c ∈ S.rules) {new : ClsMatch} (hflow : new.rule.flow = c.flow)
    (hmask : new.rule.mask = S.mask) (hpri : intMin < new.priority)
    (hid : ∀ m ∈ S.clsMatches, m.rule.id ≠ new.rule.id) {before rest : List ClsMatch}
    (hsub : (before ++ rest).Sublist c.list) (hbefore : ∀ m ∈ before, new.priority ≤ m.priority)
    (hrest : ∀ m ∈ rest, m.priority ≤ new.priority) :
    (S.replaceHeadRule H c (c.splice before new rest)).WF H ∧
      (S.replaceHeadRule H c (c.splice before new rest)).clsMatches.Perm
        (new :: (before ++ rest ++ (Keyed.erase Chain.flow c.flow S.rules).flatMap Chain.list)) := by
  obtain ⟨hflow', hwf⟩ := (h.chains c hc).splice hflow hmask hpri hsub hbefore hrest
  obtain ⟨hnodup, hids⟩ := h.splice_ids hc hid hsub
  refine ⟨replaceHeadRule_wf h hc hflow' hwf hnodup hids, (h.clsMatches_setChain hc hflow').trans ?_⟩
  exact perm_middle.append_right _

/-- Where a new match goes in the chain with its flow. -/
theorem insert_of_findEqual {new : ClsMatch} (hfind : S.findEqual new.rule.flow (S.hash H new.rule.flow) = some c) :
    ∃ before iters, c.list = before ++ iters ∧ (∀ m ∈ before, m.before new.rule = true) ∧
      ((iters = [] ∧ S.insert H new = (S.replaceHeadRule H c (c.splice before new []), .chained)) ∨
        ∃ iter rest, iters = iter :: rest ∧ iter.before new.rule = false ∧
          S.insert H new = if new.priority = iter.priority then
              (S.replaceHeadRule H c (c.splice before new rest), .replaced iter)
            else (S.replaceHeadRule H c (c.splice before new (iter :: rest)), .chained)) := by
  have hsplit : c.list.takeWhile (fun m => m.before new.rule) ++ c.list.dropWhile (fun m => m.before new.rule) = c.list :=
    takeWhile_append_dropWhile
  have hbefore := all_eq_true.1 (all_takeWhile (p := fun m : ClsMatch => m.before new.rule) (l := c.list))
  have hstop := head_dropWhile_not (fun m : ClsMatch => m.before new.rule) (l := c.list)
  refine ⟨_, _, hsplit.symm, hbefore, ?_⟩
  unfold insert
  rw [hfind]
  dsimp only
  generalize c.list.takeWhile (fun m => m.before new.rule) = before at hsplit
  generalize c.list.dropWhile (fun m => m.before new.rule) = iters at hsplit hstop
  -- a new match behind another one leaves the head where it is
  have hset : ∀ rest, before ≠ [] →
      S.setChain (c.splice before new rest) = S.replaceHeadRule H c (c.splice before new rest) := by
    intro rest hne
    obtain ⟨m, before, rfl⟩ := exists_cons_of_ne_nil hne
    refine (replaceHeadRule_eq_setChain ?_).symm
    rw [Chain.head_eq hsplit.symm, Chain.head_eq (c := c.splice (m :: before) new rest) rfl]
  rcases iters with _ | ⟨iter, rest⟩
  · refine .inl ⟨rfl, ?_⟩
    rw [append_nil] at hsplit
    rw [hset [] (hsplit ▸ c.nonempty)]
  grind

theorem WF.mem_chain (h : S.WF H) (hc : c ∈ S.rules) {m : ClsMatch} (hm : m ∈ S.clsMatches)
    (hflow : m.rule.flow = c.flow) : m ∈ c.list := by
  obtain ⟨x, hx, hmx⟩ := mem_clsMatches.1 hm
  obtain rfl := h.eq_of_flow hx hc (((h.chains x hx).same m hmx).1.symm.trans hflow)
  exact hmx

theorem WF.insert_spec (h : S.WF H) (new : ClsMatch) (hmask : new.rule.mask = S.mask)
    (hid : ∀ m ∈ S.clsMatches, m.rule.id ≠ new.rule.id) (hpri : intMin < new.priority) :
    (S.insert H new).1.WF H ∧ S.Keeps (S.insert H new).1 ∧ InsertSpec S (S.insert H new).1 new (S.insert H new).2 := by
  cases hfind : S.findEqual new.rule.flow (S.hash H new.rule.flow) with
  | none =>
    have hflow := h.findEqual_none hfind
    have hinsert : S.insert H new = (S.addHead H new, .head (S.rules.length + 1)) := by
      rw [insert, hfind]
    rw [hinsert]
    refine ⟨addHead_wf h hmask hflow hid hpri, ⟨rfl, rfl, rfl, rfl⟩, .head rfl (.refl _) ?_⟩
    intro m hm hdisplaced
    obtain ⟨c, hc, hmc⟩ := mem_clsMatches.1 hm
    exact hflow c hc (((h.chains c hc).same m hmc).1.symm.trans hdisplaced.1)
  | some c =>
    obtain ⟨hc, hflow⟩ := h.findEqual_iff.1 hfind
    have hne : S.rules ≠ [] := ne_nil_of_mem hc
    have hsame := (h.chains c hc).same
    obtain ⟨before, iters, hlist, hbefore, hcases⟩ := insert_of_findEqual hfind
    have habove : ∀ m ∈ before, new.priority ≤ m.priority := fun m hm => (before_iff.1 (hbefore m hm)).1
    -- a match that the scan passed by is not displaced
    have hpassed : ∀ m ∈ before, ¬m.DisplacedBy new.rule := by
      rintro m hm ⟨-, -, hmpri, hlive⟩
      rw [(before_iff.1 (hbefore m hm)).2 hmpri.symm] at hlive
      cases hlive
    have hold := h.clsMatches_perm hc
    rcases hcases with ⟨rfl, hinsert⟩ | ⟨iter, rest, rfl, hiter, hinsert⟩
    · rw [append_nil] at hlist
      have hsub : (before ++ []).Sublist c.list := by rw [append_nil, hlist]
      obtain ⟨hwf, hperm⟩ := h.replaceHeadRule_splice hc hflow.symm hmask hpri hid hsub habove nofun
      rw [hinsert]
      refine ⟨hwf, keeps_replaceHeadRule .., .chained Keyed.map_key_set hne (hperm.trans ?_) ?_⟩
      · grind
      · intro m hm hdisplaced
        exact hpassed m (hlist ▸ h.mem_chain hc hm (hdisplaced.1.trans hflow.symm)) hdisplaced
    · have hsorted := (h.chains c hc).sorted
      rw [hlist] at hsorted
      have hbelow := (pairwise_cons.1 (pairwise_append.1 hsorted).2.1).1
      rw [hinsert]
      split
      · rename_i heq
        obtain ⟨hwf, hperm⟩ := h.replaceHeadRule_splice hc hflow.symm hmask hpri hid
          (by rw [hlist]; exact (sublist_cons_self iter rest).append_left before) habove
          (fun m hm => heq ▸ hbelow m hm)
        have hmem : iter ∈ c.list := by rw [hlist]; simp
        refine ⟨hwf, keeps_replaceHeadRule .., .replaced Keyed.map_key_set hne ?_ hperm ?_⟩
        · grind
        · refine ⟨(hsame iter hmem).1.trans hflow, (hsame iter hmem).2.trans hmask.symm, heq.symm, ?_⟩
          by_contra hinvisible
          have : iter.before new.rule = true :=
            before_iff.2 ⟨heq.le, fun _ => by simpa using hinvisible⟩
          simp_all
      · rename_i hneq
        have hlt : iter.priority < new.priority := by
          by_contra hle
          have : iter.before new.rule = true := before_iff.2 ⟨not_lt.1 hle, fun heq => absurd heq hneq⟩
          simp_all
        have hbelow' : ∀ m ∈ iter :: rest, m.priority < new.priority := by
          grind
        obtain ⟨hwf, hperm⟩ := h.replaceHeadRule_splice hc hflow.symm hmask hpri hid (by rw [hlist]) habove
          (fun m hm => (hbelow' m hm).le)
        refine ⟨hwf, keeps_replaceHeadRule .., .chained Keyed.map_key_set hne (hperm.trans ?_) ?_⟩
        · rw [← hlist]
          exact hold.symm.cons new
        · intro m hm hdisplaced
          have hmc := h.mem_chain hc hm (hdisplaced.1.trans hflow.symm)
          rw [hlist] at hmc
          rcases mem_append.1 hmc with hmc | hmc
          · exact hpassed m hmc hdisplaced
          · exact absurd hdisplaced.2.2.1 (hbelow' m hmc).ne

/-- What taking `m` out of a subtable does to its chains and its matches. -/
inductive RemoveSpec (S S' : ClsSubtable) (m : ClsMatch) : Removed → Prop
  | head : (S.rules.map Chain.flow).Perm (m.rule.flow :: S'.rules.map Chain.flow) →
      S.clsMatches.Perm (m :: S'.clsMatches) → RemoveSpec S S' m (.head S'.rules.length)
  | chained : S'.rules.map Chain.flow = S.rules.map Chain.flow → S'.rules ≠ [] →
      S.clsMatches.Perm (m :: S'.clsMatches) → RemoveSpec S S' m .chained

end ClsSubtable

theorem Chain.WF.sublist (hwf : c.WF H mask) {list : List ClsMatch} (hsub : list.Sublist c.list) (hne : list ≠ []) :
    Chain.flow { c with list := list, nonempty := hne } = c.flow ∧
      Chain.WF H mask { c with list := list, nonempty := hne } := by
  have hflow : Chain.flow { c with list := list, nonempty := hne } = c.flow :=
    Chain.flow_eq fun m hm => (hwf.same m (hsub.subset hm)).1
  refine ⟨hflow, fun m hm => ?_, hwf.sorted.sublist hsub, fun m hm => hwf.above m (hsub.subset hm), ?_⟩
  · rw [hflow]
    exact hwf.same m (hsub.subset hm)
  · rw [hflow]
    exact hwf.hash

namespace ClsSubtable

theorem WF.exists_chain (h : S.WF H) {m : ClsMatch} (hm : m ∈ S.clsMatches) :
    ∃ c before after, c ∈ S.rules ∧ S.findEqual m.rule.flow (S.hash H m.rule.flow) = some c ∧
      c.list = before ++ m :: after ∧ (c.list.eraseP fun x => x.rule.id = m.rule.id) = before ++ after := by
  obtain ⟨c, hc, hmc⟩ := mem_clsMatches.1 hm
  obtain ⟨x, before, after, -, hx, hlist, herase⟩ :=
    exists_of_eraseP (p := fun x : ClsMatch => x.rule.id = m.rule.id) hmc (by simp)
  have hxc : x ∈ c.list := by rw [hlist]; simp
  obtain rfl : x = m :=
    inj_on_of_nodup_map ((nodup_flatMap.1 h.ids).1 c hc) hxc hmc (by simpa using hx)
  exact ⟨c, before, after, hc, h.findEqual_iff.2 ⟨hc, ((h.chains c hc).same x hmc).1.symm⟩, hlist, herase⟩

theorem WF.remove_spec (h : S.WF H) {m : ClsMatch} (hm : m ∈ S.clsMatches) :
    ∃ S' removed, S.remove H m.rule = some (S', removed) ∧ S'.WF H ∧ S.Keeps S' ∧ RemoveSpec S S' m removed := by
  obtain ⟨c, before, after, hc, hfind, hlist, herase⟩ := h.exists_chain hm
  have hold := h.clsMatches_perm hc
  rw [hlist] at hold
  have hperm : S.clsMatches.Perm
      (m :: (before ++ after ++ (Keyed.erase Chain.flow c.flow S.rules).flatMap Chain.list)) :=
    hold.trans (perm_middle.append_right _)
  have hsub : (before ++ after).Sublist c.list := by
    simp [*]
  unfold remove
  rw [hfind]
  simp only [herase]
  by_cases hne : before ++ after ≠ []
  · -- other matches of the chain are left
    obtain ⟨hflow, hwf⟩ := (h.chains c hc).sublist hsub hne
    have hids : (Chain.ids { c with list := before ++ after, nonempty := hne }).Sublist c.ids := hsub.map _
    have hwf' := replaceHeadRule_wf h hc hflow hwf (((nodup_flatMap.1 h.ids).1 c hc).sublist hids)
      fun id hid => .inl (hids.subset hid)
    have hspec : RemoveSpec S (S.replaceHeadRule H c { c with list := before ++ after, nonempty := hne }) m .chained := by
      refine .chained Keyed.map_key_set ?_ (hperm.trans ((h.clsMatches_setChain hc hflow).symm.cons m))
      refine ne_nil_of_length_pos ?_
      show 0 < (Keyed.set Chain.flow _ S.rules).length
      rw [Keyed.set, length_map]
      exact length_pos_of_mem hc
    by_cases hhead : c.head.rule.id ≠ m.rule.id
    · rw [if_pos hhead, dif_pos ⟨hne, by rw [hlist]; simp⟩]
      obtain ⟨x, before, rfl⟩ : ∃ x xs, before = x :: xs := by
        rcases before with _ | ⟨x, before⟩
        · exact absurd (congrArg (·.rule.id) (Chain.head_eq hlist)) hhead
        · exact ⟨x, before, rfl⟩
      have hset : S.replaceHeadRule H c { c with list := x :: before ++ after, nonempty := hne } =
          S.setChain { c with list := x :: before ++ after, nonempty := hne } := by
        apply replaceHeadRule_eq_setChain
        rw [Chain.head_eq hlist, Chain.head_eq (c := { c with list := x :: before ++ after, nonempty := hne }) rfl]
      rw [← hset]
      exact ⟨_, _, rfl, hwf', keeps_replaceHeadRule .., hspec⟩
    · rw [if_neg hhead, dif_pos hne]
      exact ⟨_, _, rfl, hwf', keeps_replaceHeadRule .., hspec⟩
  · -- the match is the last of its kind
    push Not at hne
    obtain ⟨rfl, rfl⟩ := append_eq_nil_iff.1 hne
    rw [if_neg (by rw [Chain.head_eq hlist]; simp), dif_neg (by simp)]
    have hrules := Keyed.perm_of_mem h.flows hc
    have hflow : m.rule.flow = c.flow := ((h.chains c hc).same m (by rw [hlist]; simp)).1
    have hlen : S.rules.length - 1 = (S.removeHead H c).rules.length := by
      rw [hrules.length_eq]
      rfl
    refine ⟨_, _, rfl, removeHead_wf h hc, ⟨rfl, rfl, rfl, rfl⟩, ?_⟩
    rw [hlen]
    refine .head ?_ hperm
    rw [hflow]
    exact hrules.map Chain.flow

end ClsSubtable

end LinkerOvs.Cls
