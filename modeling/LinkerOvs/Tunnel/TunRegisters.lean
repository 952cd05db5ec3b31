/-
Reading and writing tunnel options (`tun_metadata_read` and `tun_metadata_write` in `lib/tun-metadata.c`). Both go
through the chain of an option, but take each piece at a place behind the first one, so that an option lies in one
stretch from its first piece on, whatever space it has been given.
-/
import LinkerOvs.Lib.Bytes
import LinkerOvs.Tunnel.TunTable

namespace LinkerOvs.Tunnel

open List

/-! ## The functions -/

/-- With the options in their places. -/
structure TunMetadata where
  presentMap : BitVec 64
  opts : List UInt8
  opts_length : opts.length = tunMetadataTotOptSize

namespace TunMetadata

variable (md : TunMetadata)

def write (p : Nat) (bs : List UInt8) : Except Fault TunMetadata :=
  if h : p + bs.length ≤ tunMetadataTotOptSize then
    .ok
      { md with
        opts := Bytes.write md.opts p bs
        opts_length := (Bytes.length_write (h.trans_eq md.opts_length.symm)).trans md.opts_length }
  else .error .outside

def read (p n : Nat) : Except Fault (List UInt8) :=
  if p + n ≤ tunMetadataTotOptSize then .ok (Bytes.read md.opts p n) else .error .outside

end TunMetadata

/-- The loop of `memcpy_to_metadata`; `head` is `loc->c.offset` in each turn. -/
def toLoop (head : Nat) (src : List UInt8) : List LocChain → Nat → TunMetadata → Except Fault TunMetadata
  | [], _, md => .ok md
  | chain :: chains, addr, md => do
    if addr + chain.len ≤ src.length then
      let md ← md.write (head + addr) (Bytes.read src addr chain.len)
      toLoop head src chains (addr + chain.len) md
    else .error .outside

def memcpyToMetadata (md : TunMetadata) (src : List UInt8) (loc : Loc) (idx : Nat) : Except Fault TunMetadata := do
  let md ← toLoop loc.c.offset src loc.chains 0 md
  .ok { md with presentMap := md.presentMap ||| (1#64 <<< idx) }

/-- The loop of `memcpy_from_metadata`. -/
def fromLoop (head : Nat) (md : TunMetadata) : List LocChain → Nat → Except Fault (List UInt8)
  | [], _ => .ok []
  | chain :: chains, addr => do
    let bs ← md.read (head + addr) chain.len
    let rest ← fromLoop head md chains (addr + chain.len)
    .ok (bs ++ rest)

def memcpyFromMetadata (md : TunMetadata) (loc : Loc) : Except Fault (List UInt8) := fromLoop loc.c.offset md loc.chains 0

/-- The `n_bytes` of the fields `tun_metadata<i>`. -/
def mfNBytes : Nat := 124

/-- The value of such a field. -/
abbrev TunValue := { bs : List UInt8 // bs.length = mfNBytes }

def tunMetadataRead (t : TunTable) (md : TunMetadata) (idx : Nat) : Except Fault (List UInt8) := do
  let loc := (t.entries idx).loc
  let bs ← memcpyFromMetadata md loc
  .ok (List.replicate (mfNBytes - loc.len) 0 ++ bs)

def tunMetadataWrite (t : TunTable) (md : TunMetadata) (idx : Nat) (value : TunValue) : Except Fault TunMetadata :=
  if (t.entries idx).valid then
    let loc := (t.entries idx).loc
    memcpyToMetadata md (value.1.drop (mfNBytes - loc.len)) loc idx
  else .ok md

/-! ## One stretch from the first piece on -/

section

variable {md : TunMetadata}

variable {p : Nat} {bs : List UInt8}

theorem TunMetadata.write_of_le (md : TunMetadata) (h : p + bs.length ≤ tunMetadataTotOptSize) :
    ∃ md', md.write p bs = .ok md' ∧ md'.opts = Bytes.write md.opts p bs := by
  rw [write, dif_pos h]
  exact ⟨_, rfl, rfl⟩

theorem TunMetadata.write_of_lt (h : tunMetadataTotOptSize < p + bs.length) :
    md.write p bs = .error .outside := dif_neg (not_le.2 h)

theorem TunMetadata.read_of_le {n : Nat} (h : p + n ≤ tunMetadataTotOptSize) :
    md.read p n = .ok (Bytes.read md.opts p n) := if_pos h

@[ext] theorem TunMetadata.ext {md md' : TunMetadata} (hmap : md.presentMap = md'.presentMap) (hopts : md.opts = md'.opts) :
    md = md' := by
  cases md
  subst hmap hopts
  rfl

theorem TunMetadata.write_append {bs' : List UInt8} :
    (do
      let md ← md.write p bs
      md.write (p + bs.length) bs') = md.write p (bs ++ bs') := by
  by_cases h : p + (bs ++ bs').length ≤ tunMetadataTotOptSize
  · have hlen := @length_append _ bs bs'
    rw [write, dif_pos (by omega), Except.ok_bind, write, dif_pos (by omega), write, dif_pos h]
    congr 1
    exact TunMetadata.ext rfl (Bytes.write_write (by rw [md.opts_length]; omega))
  have hlen := @length_append _ bs bs'
  rw [write_of_lt (show _ < p + (bs ++ bs').length by omega)]
  by_cases hfirst : p + bs.length ≤ tunMetadataTotOptSize
  · obtain ⟨md', hmd', -⟩ := write_of_le md hfirst
    rw [hmd', Except.ok_bind, write_of_lt (by omega)]
  · rw [write_of_lt (by omega)]
    rfl

theorem toLoop_eq (head : Nat) (src : List UInt8) : ∀ (chains : List LocChain) (addr : Nat) (md : TunMetadata),
    head + addr ≤ tunMetadataTotOptSize → src.length = addr + (space chains).length →
    toLoop head src chains addr md = md.write (head + addr) (src.drop addr)
  | [], addr, md, hbase, hsrc => by
    have hnil : src.drop addr = [] := drop_eq_nil_of_le (by rw [hsrc]; exact le_refl _)
    rw [toLoop, hnil, TunMetadata.write, dif_pos (by exact hbase)]
    simp
  | chain :: chains, addr, md, hbase, hsrc => by
    have hsplit : (space (chain :: chains)).length = chain.len + (space chains).length := by simp
    have hlen : (Bytes.read src addr chain.len).length = chain.len := by
      rw [Bytes.read, length_take, length_drop]
      omega
    have hdrop : src.drop addr = Bytes.read src addr chain.len ++ src.drop (addr + chain.len) := by
      rw [Bytes.read, ← drop_drop, take_append_drop]
    rw [toLoop, if_pos (by omega), hdrop, ← TunMetadata.write_append, hlen]
    by_cases hfirst : head + addr + chain.len ≤ tunMetadataTotOptSize
    · obtain ⟨md', hmd', -⟩ := TunMetadata.write_of_le md
        (show head + addr + (Bytes.read src addr chain.len).length ≤ _ by omega)
      rw [hmd', Except.ok_bind, Except.ok_bind, toLoop_eq head src chains (addr + chain.len) md' (by omega) (by omega),
        Nat.add_assoc]
    · rw [TunMetadata.write_of_lt (by omega)]
      rfl

theorem fromLoop_eq (head : Nat) (md : TunMetadata) : ∀ (chains : List LocChain) (addr : Nat),
    head + addr ≤ tunMetadataTotOptSize →
    fromLoop head md chains addr = md.read (head + addr) (space chains).length
  | [], addr, hbase => by
    rw [TunMetadata.read_of_le (by exact hbase)]
    rfl
  | chain :: chains, addr, hbase => by
    have hsplit : (space (chain :: chains)).length = chain.len + (space chains).length := by simp
    rw [fromLoop, hsplit]
    by_cases hfirst : head + addr + chain.len ≤ tunMetadataTotOptSize
    · rw [TunMetadata.read_of_le hfirst, Except.ok_bind, fromLoop_eq head md chains (addr + chain.len) (by omega),
        ← Nat.add_assoc]
      by_cases hall : head + addr + chain.len + (space chains).length ≤ tunMetadataTotOptSize
      · rw [TunMetadata.read_of_le hall, Except.ok_bind, TunMetadata.read_of_le (by omega), ← Bytes.read_add]
      · rw [TunMetadata.read, if_neg hall, TunMetadata.read, if_neg (by omega)]
        rfl
    · rw [TunMetadata.read, if_neg hfirst, TunMetadata.read, if_neg (by omega)]
      rfl

end

def TunTable.head (t : TunTable) (i : Nat) : Nat := (t.entries i).loc.c.offset

section

variable {t : TunTable} {lens : Lens} {i n : Nat}

section

variable (h : t.Inv lens) (hi : lens i = some n)
include h hi

theorem TunTable.Inv.head_le : t.head i ≤ tunMetadataTotOptSize :=
  (Nat.le_add_right _ _).trans ((h.placed i n hi).inside _ mem_cons_self)

theorem TunTable.Inv.length_drop (value : TunValue) : (value.1.drop (mfNBytes - n)).length = n := by
  have hle := (h.placed i n hi).le
  have hvalue := value.2
  unfold mfNBytes at hvalue ⊢
  rw [List.length_drop]
  omega

theorem TunTable.Inv.read_eq (md : TunMetadata) :
    tunMetadataRead t md i = (do
      let bs ← md.read (t.head i) n
      .ok (List.replicate (mfNBytes - n) 0 ++ bs)) := by
  obtain ⟨hlen, -, -, hspace, -, -⟩ := h.placed i n hi
  rw [tunMetadataRead, memcpyFromMetadata, fromLoop_eq _ md _ 0 (h.head_le hi), hspace, hlen]
  rfl

theorem TunTable.Inv.read_of_le (md : TunMetadata) (hle : t.head i + n ≤ tunMetadataTotOptSize) :
    tunMetadataRead t md i = .ok (List.replicate (mfNBytes - n) 0 ++ Bytes.read md.opts (t.head i) n) := by
  rw [h.read_eq hi, TunMetadata.read_of_le hle, Except.ok_bind]

theorem TunTable.Inv.write_eq (md : TunMetadata) (value : TunValue) :
    tunMetadataWrite t md i value = (do
      let md ← md.write (t.head i) (value.1.drop (mfNBytes - n))
      .ok { md with presentMap := md.presentMap ||| (1#64 <<< i) }) := by
  obtain ⟨hlen, -, -, hspace, -, -⟩ := h.placed i n hi
  have hvalid : (t.entries i).valid = true := by
    rw [h.valid, hi]
    rfl
  have hdrop := h.length_drop hi value
  rw [tunMetadataWrite, if_pos hvalid]
  dsimp only
  rw [hlen, memcpyToMetadata, toLoop_eq _ _ _ 0 md (h.head_le hi) (by rw [hspace]; omega)]
  rfl

theorem TunTable.Inv.write_of_le (md : TunMetadata) (value : TunValue)
    (hle : t.head i + n ≤ tunMetadataTotOptSize) : ∃ md', tunMetadataWrite t md i value = .ok md' ∧
      md'.opts = Bytes.write md.opts (t.head i) (value.1.drop (mfNBytes - n)) := by
  obtain ⟨md', hmd', hopts⟩ := TunMetadata.write_of_le md
    (show t.head i + (value.1.drop (mfNBytes - n)).length ≤ _ by rw [h.length_drop hi value]; exact hle)
  rw [h.write_eq hi, hmd']
  exact ⟨_, rfl, hopts⟩

theorem TunTable.Inv.le_of_write {md md' : TunMetadata} {value : TunValue}
    (hwrite : tunMetadataWrite t md i value = .ok md') : t.head i + n ≤ tunMetadataTotOptSize := by
  by_contra hgt
  rw [h.write_eq hi, TunMetadata.write_of_lt (by rw [h.length_drop hi value]; omega)] at hwrite
  cases hwrite

end

end

/-! ## Registers -/

/-- A mapped option holds what was written to it, and a write leaves the other mapped options as they are. -/
def Registers (t : TunTable) (lens : Lens) : Prop :=
  ∀ i n, lens i = some n → ∀ (md : TunMetadata) (value : TunValue), ∃ md', tunMetadataWrite t md i value = .ok md' ∧
    tunMetadataRead t md' i = .ok (List.replicate (mfNBytes - n) 0 ++ value.1.drop (mfNBytes - n)) ∧
    ∀ j m, lens j = some m → j ≠ i → ∃ v, tunMetadataRead t md j = .ok v ∧ tunMetadataRead t md' j = .ok v

/-- The stretches of the mapped options, each from its first piece on, are inside the option data and apart. -/
structure StretchesApart (t : TunTable) (lens : Lens) : Prop where
  inside : ∀ i n, lens i = some n → t.head i + n ≤ tunMetadataTotOptSize
  apart : ∀ i j n m, i ≠ j → lens i = some n → lens j = some m →
    n = 0 ∨ m = 0 ∨ t.head i + n ≤ t.head j ∨ t.head j + m ≤ t.head i

section

variable {t : TunTable} {lens : Lens}

theorem TunTable.Inv.registers (h : t.Inv lens) (hst : StretchesApart t lens) : Registers t lens := by
  intro i n hi md value
  have hhead := h.head_le hi
  have hdrop := h.length_drop hi value
  have hle := hst.inside i n hi
  obtain ⟨md', hwrite, hopts⟩ := h.write_of_le hi md value hle
  refine ⟨md', hwrite, ?_, fun j m hj hji => ?_⟩
  · have hself := Bytes.read_write_self (value.1.drop (mfNBytes - n)) (hhead.trans_eq md.opts_length.symm)
    rw [hdrop] at hself
    rw [h.read_of_le hi md' hle, hopts, hself]
  · have hlej := hst.inside j m hj
    refine ⟨_, h.read_of_le hj md hlej, ?_⟩
    have hkept : Bytes.read md'.opts (t.head j) m = Bytes.read md.opts (t.head j) m := by
      rw [hopts]
      rcases hst.apart i j n m (Ne.symm hji) hi hj with rfl | rfl | hbehind | hbefore
      · rw [length_eq_zero_iff.1 hdrop, Bytes.write_nil]
      · rfl
      · exact Bytes.read_write_after (by rw [hdrop]; exact hbehind) (hhead.trans_eq md.opts_length.symm)
      · exact Bytes.read_write_before hbefore (hhead.trans_eq md.opts_length.symm)
    rw [h.read_of_le hj md' hlej, hkept]

/-- All bytes zero, and a value of ones. -/
def TunMetadata.zero : TunMetadata := ⟨0, List.replicate tunMetadataTotOptSize 0, length_replicate⟩

def onesValue : TunValue := ⟨List.replicate mfNBytes 0xff, length_replicate⟩

theorem TunTable.Inv.stretchesApart (h : t.Inv lens) (hreg : Registers t lens) : StretchesApart t lens := by
  have hinside : ∀ i n, lens i = some n → t.head i + n ≤ tunMetadataTotOptSize := by
    intro i n hi
    obtain ⟨md', hwrite, -⟩ := hreg i n hi .zero onesValue
    exact h.le_of_write hi hwrite
  refine ⟨hinside, fun i j n m hij hi hj => ?_⟩
  by_contra hnot
  obtain ⟨md', hwrite, -, hothers⟩ := hreg i n hi .zero onesValue
  obtain ⟨md₁, hwrite₁, hopts⟩ := h.write_of_le hi .zero onesValue (hinside i n hi)
  cases hwrite.symm.trans hwrite₁
  obtain ⟨v, hbefore, hafter⟩ := hothers j m hj (Ne.symm hij)
  rw [h.read_of_le hj _ (hinside j m hj)] at hbefore hafter
  have hsame := append_cancel_left (Except.ok.inj (hafter.trans hbefore.symm))
  -- a byte that both stretches have
  obtain ⟨b, hbi, hbi', hbj, hbj'⟩ : ∃ b, t.head i ≤ b ∧ b < t.head i + n ∧ t.head j ≤ b ∧ b < t.head j + m := by
    refine ⟨max (t.head i) (t.head j), ?_⟩
    omega
  have hdrop := h.length_drop hi onesValue
  have hzero : (Bytes.read TunMetadata.zero.opts (t.head j) m).getD (b - t.head j) 0 = 0 := by
    rw [Bytes.getD_read (by omega)]
    rw [TunMetadata.zero, getD_eq_getElem?_getD, getElem?_replicate]
    split <;> rfl
  have hone : (Bytes.read md'.opts (t.head j) m).getD (b - t.head j) 0 = 0xff := by
    have hb : t.head j + (b - t.head j) = t.head i + (b - t.head i) := by omega
    rw [Bytes.getD_read (by omega), hopts, hb,
      Bytes.getD_write ((h.head_le hi).trans_eq TunMetadata.zero.opts_length.symm) (by rw [hdrop]; omega)]
    have hle := (h.placed i n hi).le
    rw [onesValue, drop_replicate, getD_eq_getElem?_getD, getElem?_replicate,
      if_pos (by unfold mfNBytes; omega)]
    rfl
  simp_all

theorem TunTable.Inv.stretchesApart_of_onePiece (h : t.Inv lens)
    (hone : ∀ i n, lens i = some n → (t.entries i).loc.next = []) : StretchesApart t lens := by
  have hspace : ∀ i n, lens i = some n → t.spaceOf i = List.range' (t.head i) n := by
    intro i n hi
    have hlength := (h.placed i n hi).length
    rw [TunTable.spaceOf, TunTable.head]
    rw [Loc.chains, hone i n hi] at hlength ⊢
    simp_all
  constructor
  · intro i n hi
    have hinside := (h.placed i n hi).inside _ mem_cons_self
    have hlength := (h.placed i n hi).length
    rw [Loc.chains, hone i n hi] at hlength
    simp only [space_cons, space_nil, append_nil, length_range'] at hlength
    rw [TunTable.head]
    omega
  · intro i j n m hij hi hj
    have hdisjoint := h.disjoint i j n m hij hi hj
    rw [hspace i n hi, hspace j m hj] at hdisjoint
    by_contra hnot
    refine hdisjoint (a := max (t.head i) (t.head j)) ?_ ?_
    · exact mem_range'_1.2 (by omega)
    · exact mem_range'_1.2 (by omega)

/-- In every table that commands lead to, the mapped options have space of their length apart from each other inside the
option data, and the next command returns; the options are registers just when their stretches are apart too. -/
theorem tunOptions_registers_iff (h : Reaches t lens) :
    (∀ i n, lens i = some n → (t.spaceOf i).Nodup ∧ (t.spaceOf i).length = n ∧
        ∀ b ∈ t.spaceOf i, b < tunMetadataTotOptSize) ∧
      (∀ i j n m, i ≠ j → lens i = some n → lens j = some m → (t.spaceOf i).Disjoint (t.spaceOf j)) ∧
      (∀ m : TableMod, m.WellFormed → m.InRange → ∃ result, tunMetadataTableMod t m = .ok result) ∧
      (Registers t lens ↔ StretchesApart t lens) := by
  have hinv := h.inv
  refine ⟨fun i n hi => ?_, hinv.disjoint, fun m => tunMetadataTableMod_returns t, hinv.stretchesApart, hinv.registers⟩
  have hplaced := hinv.placed i n hi
  refine ⟨hplaced.nodup, hplaced.length, fun b hb => ?_⟩
  obtain ⟨chain, hchain, -, hlt⟩ := mem_space.1 hb
  exact hlt.trans_le (hplaced.inside chain hchain)

end

/-- The table after some commands, and what is mapped in it. -/
def tableAfter : List TableMod → TunTable × Lens → Except Fault (TunTable × Lens)
  | [], s => .ok s
  | m :: mods, (t, lens) => do
    let (t', err) ← tunMetadataTableMod t m
    tableAfter mods (t', m.apply lens err)

theorem Reaches.tableAfter : ∀ {mods : List TableMod} {t t' : TunTable} {lens lens' : Lens}, Reaches t lens →
    (∀ m ∈ mods, m.WellFormed) → Tunnel.tableAfter mods (t, lens) = .ok (t', lens') → Reaches t' lens'
  | [], _, _, _, _, h, _, hrun => by
    cases hrun
    exact h
  | m :: mods, t, _, lens, _, h, hmods, hrun => by
    obtain ⟨⟨t₁, err⟩, hmod, hrun⟩ := Except.bind_eq_ok hrun
    exact (Reaches.mod h (hmods m mem_cons_self) hmod).tableAfter
      (fun m' hm' => hmods m' (mem_cons_of_mem _ hm')) hrun

/-- Four options that fill the option data. -/
def fullMod : TableMod := .add [⟨0, 0, 4, 0⟩, ⟨0, 1, 124, 1⟩, ⟨0, 2, 124, 2⟩, ⟨0, 3, 4, 3⟩]

theorem fullMod_wellFormed : fullMod.WellFormed := by
  simp [fullMod, TableMod.WellFormed, TlvMap.WellFormed]

theorem tunOptions_registers_full : ∃ t lens, Reaches t lens ∧ lens 1 = some 124 ∧ Registers t lens := by
  have hcheck : (match tableAfter [fullMod] (tableAlloc, fun _ => none) with
      | .ok (t, lens) => decide (lens 1 = some 124 ∧ ∀ i ∈ List.range 64, (t.entries i).loc.next = [])
      | .error _ => false) = true := by
    decide +kernel
  cases hrun : tableAfter [fullMod] (tableAlloc, fun _ => none) with
  | error e =>
    rw [hrun] at hcheck
    cases hcheck
  | ok s =>
    obtain ⟨t, lens⟩ := s
    rw [hrun] at hcheck
    obtain ⟨hmapped, hone⟩ := of_decide_eq_true hcheck
    have hreaches := Reaches.init.tableAfter (by simpa using fullMod_wellFormed) hrun
    refine ⟨t, lens, hreaches, hmapped, (tunOptions_registers_iff hreaches).2.2.2.2 ?_⟩
    exact hreaches.inv.stretchesApart_of_onePiece fun i n hi =>
      hone i (mem_range.2 (hreaches.inv.index i n hi))

/-- The small options at both ends are deleted, and one of eight bytes gets their two pieces. -/
def splitMods : List TableMod := [fullMod, .delete [⟨0, 0, 0, 0⟩, ⟨0, 0, 0, 3⟩], .add [⟨0, 4, 8, 4⟩]]

/-- Writing the option in two pieces changes the one behind its first piece. -/
theorem splitOption_overwrites : ∃ t lens md', Reaches t lens ∧ lens 1 = some 124 ∧ lens 4 = some 8 ∧
    tunMetadataWrite t .zero 4 onesValue = .ok md' ∧
    (tunMetadataRead t md' 1).toOption ≠ (tunMetadataRead t .zero 1).toOption := by
  have hcheck : (match tableAfter splitMods (tableAlloc, fun _ => none) with
      | .ok (t, lens) =>
        match tunMetadataWrite t .zero 4 onesValue with
        | .ok md' => decide (lens 1 = some 124 ∧ lens 4 = some 8 ∧
          (tunMetadataRead t md' 1).toOption ≠ (tunMetadataRead t .zero 1).toOption)
        | .error _ => false
      | .error _ => false) = true := by
    decide +kernel
  cases hrun : tableAfter splitMods (tableAlloc, fun _ => none) with
  | error e =>
    rw [hrun] at hcheck
    cases hcheck
  | ok s =>
    obtain ⟨t, lens⟩ := s
    rw [hrun] at hcheck
    dsimp only at hcheck
    cases hwrite : tunMetadataWrite t .zero 4 onesValue with
    | error e =>
      rw [hwrite] at hcheck
      cases hcheck
    | ok md' =>
      rw [hwrite] at hcheck
      obtain ⟨hone, hfour, hread⟩ := of_decide_eq_true hcheck
      have hmods : ∀ m ∈ splitMods, m.WellFormed := by
        simp [splitMods, fullMod, TableMod.WellFormed, TlvMap.WellFormed]
      exact ⟨t, lens, md', Reaches.init.tableAfter hmods hrun, hone, hfour, hwrite, hread⟩

end LinkerOvs.Tunnel
