/-
The table of tunnel options (`lib/tun-metadata.c`): which option classes and types are mapped to which
`tun_metadata<i>`, and where each has its space among the 256 bytes of option data. Space is given out in units of four
bytes, in one piece where there is one and otherwise in several.
-/
import LinkerOvs.Lib.Outcome
import LinkerOvs.Util.ByteOrder

namespace LinkerOvs.Tunnel

open List
open Function (update update_of_ne update_self)

/-! ## The table -/

def tunMetadataNumOpts : Nat := 64
def tunMetadataTotOptSize : Nat := 256

/-- `struct tun_metadata_loc_chain`, without the link to the next one. -/
structure LocChain where
  offset : Nat
  len : Nat
deriving DecidableEq, Repr

/-- `struct tun_metadata_loc`: the first element of the chain and the ones linked to it. -/
structure Loc where
  len : Nat
  c : LocChain
  next : List LocChain
deriving DecidableEq, Repr

def Loc.chains (loc : Loc) : List LocChain := loc.c :: loc.next

/-- A location that has been cleared with `memset`. -/
def Loc.zero : Loc := ⟨0, ⟨0, 0⟩, []⟩

structure TunMetaEntry where
  key : Nat
  loc : Loc
  valid : Bool
deriving DecidableEq, Repr

/-- The map of the keys holds the indexes of the valid entries. -/
structure TunTable where
  entries : Nat → TunMetaEntry
  allocMap : Nat → Bool
  keyHmap : List Nat

/-- An assertion that fails, a loop that takes more turns than it was given, or an access outside the option data. -/
inductive Fault
  | assertion
  | turns
  | outside
deriving DecidableEq, Repr

inductive Ofperr
  | alreadyMapped
  | dupEntry
  | tableFull
deriving DecidableEq, Repr

/-- `struct ofputil_tlv_map`. -/
structure TlvMap where
  optionClass : UInt16
  optionType : UInt8
  optionLen : Nat
  index : Nat

/-- `struct ofputil_tlv_table_mod`. -/
inductive TableMod
  | add (mappings : List TlvMap)
  | delete (mappings : List TlvMap)
  | clear

/-! ## The functions -/

/-- The search of `bitmap_scan` through a number of bits. -/
def scanUp (map : Nat → Bool) (target : Bool) : Nat → Nat → Nat
  | 0, start => start
  | n + 1, start => if map start = target then start else scanUp map target n (start + 1)

def bitmapScan (map : Nat → Bool) (target : Bool) (start stop : Nat) : Nat :=
  if start < stop then scanUp map target (stop - start) start else stop

def bitmapSetMultiple (map : Nat → Bool) (start count : Nat) (value : Bool) : Nat → Bool :=
  fun i => if start ≤ i ∧ i < start + count then value else map i

def tunMetaKey (cls : UInt16) (type : UInt8) : Nat := cls.toNat * 256 + type.toNat

/-- `table_alloc (NULL)`. -/
def tableAlloc : TunTable where
  entries _ := ⟨0, .zero, false⟩
  allocMap _ := false
  keyHmap := []

/-- The loop of `tun_metadata_alloc_chain`: the first run of free units that is long enough, or else the longest. -/
def allocScan (map : Nat → Bool) (allocLen : Nat) : Nat → Nat → Nat → Nat → Except Fault (Option (Nat × Nat))
  | 0, _, _, _ => .error .turns
  | turns + 1, scanStart, bestStart, bestLen =>
    let scanEnd := tunMetadataTotOptSize / 4
    let posStart := bitmapScan map false scanStart scanEnd
    if posStart = scanEnd then .ok (if bestLen = 0 then none else some (bestStart, bestLen))
    else
      let posEnd := bitmapScan map true posStart (min (posStart + allocLen) scanEnd)
      let posLen := posEnd - posStart
      if posLen = allocLen then .ok (some (posStart, posLen))
      else if posLen > bestLen then allocScan map allocLen turns (posEnd + 1) posStart posLen
      else allocScan map allocLen turns (posEnd + 1) bestStart bestLen

/-- `none` is `ENOSPC`. -/
def tunMetadataAllocChain (map : Nat → Bool) (len : Nat) : Except Fault (Option ((Nat → Bool) × LocChain)) := do
  let found ← allocScan map (len / 4) (tunMetadataTotOptSize / 4 + 1) 0 0 0
  .ok (found.map fun (posStart, posLen) => (bitmapSetMultiple map posStart posLen true, ⟨posStart * 4, posLen * 4⟩))

/-- The loop of `tun_metadata_add_entry` over the length that is still to be allocated. -/
def allocChains : Nat → (Nat → Bool) → Nat → Except Fault (Option ((Nat → Bool) × List LocChain))
  | _, map, 0 => .ok (some (map, []))
  | 0, _, _ + 1 => .error .turns
  | turns + 1, map, len + 1 => do
    match ← tunMetadataAllocChain map (len + 1) with
    | none => .ok none
    | some (map, chain) =>
      let rest ← allocChains turns map (len + 1 - chain.len)
      .ok (rest.map fun (map, chains) => (map, chain :: chains))

/-- After an error the caller frees the table, so that what has become of it is left out. -/
def tunMetadataAddEntry (t : TunTable) (idx : Nat) (optClass : UInt16) (type : UInt8) (len : Nat) :
    Except Fault (Except Ofperr TunTable) :=
  if tunMetadataNumOpts ≤ idx then .error .assertion
  else if (t.entries idx).valid then .ok (.error .alreadyMapped)
  else
    let key := tunMetaKey (htons optClass) type
    if t.keyHmap.any fun i => (t.entries i).key = key then .ok (.error .dupEntry)
    else do
      match ← allocChains len t.allocMap len with
      | none => .ok (.error .tableFull)
      | some (allocMap, chains) =>
        let loc : Loc := ⟨len, chains.headD ⟨0, 0⟩, chains.tail⟩
        .ok (.ok
          { entries := update t.entries idx ⟨key, loc, true⟩
            allocMap := allocMap
            keyHmap := idx :: t.keyHmap })

def tunMetadataDelEntry (t : TunTable) (idx : Nat) : TunTable :=
  if tunMetadataNumOpts ≤ idx then t
  else
    let entry := t.entries idx
    if entry.valid then
      { entries := update t.entries idx { entry with loc := .zero, valid := false }
        allocMap := entry.loc.chains.foldl
          (fun map chain => bitmapSetMultiple map (chain.offset / 4) (chain.len / 4) false) t.allocMap
        keyHmap := t.keyHmap.erase idx }
    else t

/-- The index as the `uint8_t` argument of the two functions has it. -/
def TlvMap.idx (m : TlvMap) : Nat := m.index % 256

/-- The loop of `tun_metadata_table_mod` over the mappings to add. -/
def addEntries (t : TunTable) : List TlvMap → Except Fault (Except Ofperr TunTable)
  | [] => .ok (.ok t)
  | m :: mappings => do
    match ← tunMetadataAddEntry t m.idx m.optionClass m.optionType m.optionLen with
    | .error err => .ok (.error err)
    | .ok t => addEntries t mappings

/-- The table afterwards and the error. -/
def tunMetadataTableMod (t : TunTable) : TableMod → Except Fault (TunTable × Option Ofperr)
  | .add mappings => do
    match ← addEntries t mappings with
    | .error err => .ok (t, some err)
    | .ok t => .ok (t, none)
  | .delete mappings => .ok (mappings.foldl (fun t m => tunMetadataDelEntry t m.idx) t, none)
  | .clear => .ok (tableAlloc, none)

/-! ## What is mapped -/

/-- The lengths of the mapped options. -/
abbrev Lens := Nat → Option Nat

/-- What a command makes of the mapped options: all of it or, with an error, nothing. -/
def TableMod.apply (lens : Lens) : TableMod → Option Ofperr → Lens
  | _, some _ => lens
  | .add mappings, none => mappings.foldl (fun lens m => update lens m.idx (some m.optionLen)) lens
  | .delete mappings, none => mappings.foldl (fun lens m => update lens m.idx none) lens
  | .clear, none => fun _ => none

/-- The lengths that the decoder lets through. -/
def TlvMap.WellFormed (m : TlvMap) : Prop := m.optionLen % 4 = 0 ∧ m.optionLen ≤ 124

def TableMod.WellFormed : TableMod → Prop
  | .add mappings => ∀ m ∈ mappings, m.WellFormed
  | _ => True

/-- The tables that commands lead to from an empty one, with the options mapped in each. -/
inductive Reaches : TunTable → Lens → Prop
  | init : Reaches tableAlloc fun _ => none
  | mod {t t' : TunTable} {lens : Lens} {m : TableMod} {err : Option Ofperr} (h : Reaches t lens) (hm : m.WellFormed)
      (hmod : tunMetadataTableMod t m = .ok (t', err)) : Reaches t' (m.apply lens err)

/-! ## Space -/

def space (chains : List LocChain) : List Nat := chains.flatMap fun chain => List.range' chain.offset chain.len

@[simp] theorem space_nil : space [] = [] := rfl

@[simp] theorem space_cons (chain : LocChain) (chains : List LocChain) :
    space (chain :: chains) = List.range' chain.offset chain.len ++ space chains := rfl

variable {chains : List LocChain}

theorem mem_space {b : Nat} :
    b ∈ space chains ↔ ∃ chain ∈ chains, chain.offset ≤ b ∧ b < chain.offset + chain.len := by
  simp [space]

/-- The chains begin and end between two units. -/
def Aligned (chains : List LocChain) : Prop := ∀ chain ∈ chains, chain.offset % 4 = 0 ∧ chain.len % 4 = 0

theorem Aligned.mem_space (h : Aligned chains) {b b' : Nat} (hb : b ∈ space chains) (hunit : b' / 4 = b / 4) :
    b' ∈ space chains := by
  obtain ⟨chain, hchain, hle, hlt⟩ := Tunnel.mem_space.1 hb
  obtain ⟨hofs, hlen⟩ := h chain hchain
  exact Tunnel.mem_space.2 ⟨chain, hchain, by omega, by omega⟩

/-! ## Allocation -/

section

variable {map : Nat → Bool} {target : Bool} {start stop : Nat}

theorem scanUp_spec (map : Nat → Bool) (target : Bool) : ∀ (n start : Nat), start ≤ scanUp map target n start ∧ scanUp map target n start ≤ start + n ∧
    (∀ i, start ≤ i → i < scanUp map target n start → map i ≠ target) ∧
    (scanUp map target n start < start + n → map (scanUp map target n start) = target)
  | 0, start => ⟨le_refl _, le_refl _, fun i hle hlt => absurd hlt (not_lt.2 hle), fun h => absurd h (lt_irrefl _)⟩
  | n + 1, start => by
    rw [scanUp]
    split
    next htarget =>
      exact ⟨le_refl _, by omega, fun i hle hlt => absurd hlt (not_lt.2 hle), fun _ => htarget⟩
    next hother =>
      obtain ⟨hle, hle', hbefore, hfound⟩ := scanUp_spec map target n (start + 1)
      grind

theorem bitmapScan_spec (map : Nat → Bool) (target : Bool) (h : start ≤ stop) : start ≤ bitmapScan map target start stop ∧
    bitmapScan map target start stop ≤ stop ∧
    (∀ i, start ≤ i → i < bitmapScan map target start stop → map i ≠ target) ∧
    (bitmapScan map target start stop < stop → map (bitmapScan map target start stop) = target) := by
  rw [bitmapScan]
  split
  · have hspec := scanUp_spec map target (stop - start) start
    rwa [Nat.add_sub_cancel' h] at hspec
  grind

end

section

variable {map : Nat → Bool}

def FreeRun (map : Nat → Bool) (start n : Nat) : Prop :=
  start + n ≤ tunMetadataTotOptSize / 4 ∧ ∀ i, start ≤ i → i < start + n → map i = false

/-- What the scan finds is a run of free units that is not longer than it should be, and it ends. -/
theorem allocScan_spec {allocLen : Nat} (hpos : 0 < allocLen) : ∀ {turns scanStart bestStart bestLen : Nat},
    tunMetadataTotOptSize / 4 < turns + scanStart → 0 < turns → bestLen ≤ allocLen → FreeRun map bestStart bestLen →
    ∃ found, allocScan map allocLen turns scanStart bestStart bestLen = .ok found ∧
      ∀ x ∈ found, 0 < x.2 ∧ x.2 ≤ allocLen ∧ FreeRun map x.1 x.2
  | 0, _, _, _, _, hturns, _, _ => absurd hturns (lt_irrefl _)
  | turns + 1, scanStart, bestStart, bestLen, hfuel, _, hbest, hrun => by
    rw [allocScan]
    dsimp only
    by_cases hdone : bitmapScan map false scanStart (tunMetadataTotOptSize / 4) = tunMetadataTotOptSize / 4
    · rw [if_pos hdone]
      grind
    · rw [if_neg hdone]
      have hstart : scanStart ≤ tunMetadataTotOptSize / 4 := by
        by_contra hgt
        exact hdone (if_neg (by omega))
      obtain ⟨hle, hle', -, -⟩ := bitmapScan_spec map false hstart
      generalize bitmapScan map false scanStart (tunMetadataTotOptSize / 4) = posStart at hdone hle hle' ⊢
      obtain ⟨hple, hple', hfree, -⟩ := bitmapScan_spec map true
        (show posStart ≤ min (posStart + allocLen) (tunMetadataTotOptSize / 4) by omega)
      generalize bitmapScan map true posStart (min (posStart + allocLen) (tunMetadataTotOptSize / 4)) = posEnd
        at hple hple' hfree ⊢
      have hposRun : FreeRun map posStart (posEnd - posStart) := by
        refine ⟨by omega, fun i hi hlt => ?_⟩
        exact Bool.eq_false_of_not_eq_true (hfree i hi (by omega))
      split
      next hwhole =>
        refine ⟨_, rfl, fun x hx => ?_⟩
        grind
      split
      · exact allocScan_spec hpos (by omega) (by omega) (by omega) hposRun
      · exact allocScan_spec hpos (by omega) (by omega) hbest hrun

/-- What has been allocated for an option: pieces of the right total length, free before and taken afterwards. -/
structure Allocated (map map' : Nat → Bool) (len : Nat) (chains : List LocChain) : Prop where
  aligned : Aligned chains
  length : (space chains).length = len
  inside : ∀ chain ∈ chains, chain.offset + chain.len ≤ tunMetadataTotOptSize
  nodup : (space chains).Nodup
  free : ∀ b ∈ space chains, map (b / 4) = false
  taken : ∀ u, map' u = true ↔ map u = true ∨ ∃ b ∈ space chains, b / 4 = u

theorem Allocated.nil (map : Nat → Bool) : Allocated map map 0 [] where
  aligned := forall_mem_nil _
  length := rfl
  inside := forall_mem_nil _
  nodup := nodup_nil
  free := forall_mem_nil _
  taken u := by simp

theorem Allocated.cons {map map' map'' : Nat → Bool} {len len' : Nat} {chain : LocChain} {chains : List LocChain}
    (h : Allocated map map' len [chain]) (hrest : Allocated map' map'' len' chains) :
    Allocated map map'' (len + len') (chain :: chains) := by
  have hsplit : space (chain :: chains) = space [chain] ++ space chains := by simp
  have htaken : ∀ b ∈ space [chain], map' (b / 4) = true := fun b hb => (h.taken _).2 (.inr ⟨b, hb, rfl⟩)
  constructor
  · exact forall_mem_cons.2 ⟨h.aligned _ (mem_singleton_self _), hrest.aligned⟩
  · rw [hsplit, length_append, h.length, hrest.length]
  · exact forall_mem_cons.2 ⟨h.inside _ (mem_singleton_self _), hrest.inside⟩
  · rw [hsplit]
    refine h.nodup.append hrest.nodup fun b hb hb' => ?_
    have hfree := hrest.free b hb'
    simp_all
  · intro b hb
    rw [hsplit, mem_append] at hb
    rcases hb with hb | hb
    · exact h.free b hb
    · by_contra hne
      have hmap := (h.taken (b / 4)).2 (.inl (Bool.eq_true_of_not_eq_false hne))
      rw [hrest.free b hb] at hmap
      cases hmap
  · intro u
    rw [hrest.taken, h.taken, hsplit]
    constructor
    · rintro ((hmap | ⟨b, hb, hu⟩) | ⟨b, hb, hu⟩)
      · exact .inl hmap
      · exact .inr ⟨b, mem_append_left _ hb, hu⟩
      · exact .inr ⟨b, mem_append_right _ hb, hu⟩
    · grind

theorem tunMetadataAllocChain_spec (map : Nat → Bool) {len : Nat} (hlen : len % 4 = 0) (hpos : 0 < len) :
    ∃ result, tunMetadataAllocChain map len = .ok result ∧
      ∀ x ∈ result, 0 < x.2.len ∧ x.2.len ≤ len ∧ Allocated map x.1 x.2.len [x.2] := by
  obtain ⟨found, hscan, hfound⟩ := @allocScan_spec map (len / 4) (by omega)
    (tunMetadataTotOptSize / 4 + 1) 0 0 0 (by omega) (by omega)
    (by omega) ⟨by decide, fun i hi hlt => by omega⟩
  rw [tunMetadataAllocChain, hscan]
  refine ⟨_, rfl, ?_⟩
  rintro x hx
  obtain ⟨⟨start, n⟩, hmem, rfl⟩ := Option.mem_map.1 hx
  obtain ⟨hn, hle, hend, hfree⟩ := hfound _ hmem
  dsimp only at hn hle hfree ⊢
  refine ⟨by omega, by omega, ?_, ?_, ?_, ?_, ?_, ?_⟩
  · rintro c hc
    simp_all
  · simp
  · grind
  · simp [nodup_range']
  · intro b hb
    simp [mem_range'_1] at hb
    exact hfree _ (by omega) (by omega)
  · intro u
    simp only [bitmapSetMultiple, space_cons, space_nil, append_nil, mem_range'_1]
    constructor
    · split
      next hu => exact fun _ => .inr ⟨u * 4, by omega, by omega⟩
      next => exact .inl
    · rintro (hmap | ⟨b, hb, rfl⟩)
      · simp [*]
      · rw [if_pos (by omega)]

theorem allocChains_spec : ∀ {turns len : Nat} (map : Nat → Bool), len % 4 = 0 → len ≤ turns →
    ∃ result, allocChains turns map len = .ok result ∧ ∀ x ∈ result, Allocated map x.1 len x.2
  | _, 0, map, _, _ => by
    refine ⟨some (map, []), by rw [allocChains], fun x hx => ?_⟩
    cases hx
    exact .nil map
  | turns + 1, len + 1, map, hlen, hturns => by
    obtain ⟨result, halloc, hresult⟩ := tunMetadataAllocChain_spec map hlen (by omega)
    rw [allocChains, halloc, Except.ok_bind]
    cases result with
    | none => exact ⟨none, rfl, fun x hx => absurd hx (Option.not_mem_none x)⟩
    | some x =>
      obtain ⟨map', chain⟩ := x
      obtain ⟨hpos, hle, hchain⟩ := hresult _ rfl
      dsimp only at hpos hle hchain ⊢
      have hmod := (hchain.aligned chain (mem_singleton_self _)).2
      obtain ⟨rest, hrest, hspec⟩ := @allocChains_spec turns (len + 1 - chain.len) map' (by omega)
        (by omega)
      rw [hrest]
      refine ⟨_, rfl, fun x hx => ?_⟩
      obtain ⟨⟨map'', chains⟩, hmem, rfl⟩ := Option.mem_map.1 hx
      have hall := hchain.cons (hspec _ hmem)
      rwa [Nat.add_sub_cancel' hle] at hall

end

/-! ## The invariant -/

def TunTable.spaceOf (t : TunTable) (i : Nat) : List Nat := space (t.entries i).loc.chains

/-- An option of some length has its space: as many bytes, each once, inside the option data. -/
structure Loc.Placed (loc : Loc) (n : Nat) : Prop where
  len : loc.len = n
  le : n ≤ 124
  aligned : Aligned loc.chains
  length : (space loc.chains).length = n
  inside : ∀ chain ∈ loc.chains, chain.offset + chain.len ≤ tunMetadataTotOptSize
  nodup : (space loc.chains).Nodup

/-- The mapped options have their space apart from each other, and the units in use are those of a mapped option. -/
structure TunTable.Inv (t : TunTable) (lens : Lens) : Prop where
  valid : ∀ i, (t.entries i).valid = (lens i).isSome
  index : ∀ i n, lens i = some n → i < tunMetadataNumOpts
  placed : ∀ i n, lens i = some n → (t.entries i).loc.Placed n
  disjoint : ∀ i j n m, i ≠ j → lens i = some n → lens j = some m → (t.spaceOf i).Disjoint (t.spaceOf j)
  taken : ∀ u, t.allocMap u = true ↔ ∃ i n, lens i = some n ∧ ∃ b ∈ t.spaceOf i, b / 4 = u

theorem inv_tableAlloc : tableAlloc.Inv fun _ => none where
  valid _ := rfl
  index _ _ h := by cases h
  placed _ _ h := by cases h
  disjoint _ _ _ _ _ h := by cases h
  taken u := by simp [tableAlloc]

theorem space_chains (len : Nat) (chains : List LocChain) :
    space (Loc.chains ⟨len, chains.headD ⟨0, 0⟩, chains.tail⟩) = space chains := by
  cases chains <;> rfl

theorem Allocated.placed {map map' : Nat → Bool} {len : Nat} (h : Allocated map map' len chains) (hlen : len ≤ 124) :
    Loc.Placed ⟨len, chains.headD ⟨0, 0⟩, chains.tail⟩ len := by
  cases chains with
  | nil =>
    -- the first element is there even for an option without bytes
    refine ⟨rfl, hlen, fun c hc => ?_, h.length, fun c hc => ?_, nodup_nil⟩
    · cases mem_singleton.1 hc
      exact ⟨rfl, rfl⟩
    · cases mem_singleton.1 hc
      exact Nat.zero_le _
  | cons chain chains => exact ⟨rfl, hlen, h.aligned, h.length, h.inside, h.nodup⟩

section

variable {t : TunTable} {lens : Lens}

theorem TunTable.Inv.eq_none (h : t.Inv lens) {i : Nat} (hi : (t.entries i).valid = false) : lens i = none := by
  rw [h.valid, Option.isSome_eq_false_iff, Option.isNone_iff_eq_none] at hi
  exact hi

theorem TunTable.spaceOf_update (e : TunMetaEntry) {idx i : Nat} (hi : i ≠ idx) (allocMap : Nat → Bool)
    (keyHmap : List Nat) :
    TunTable.spaceOf { entries := update t.entries idx e, allocMap := allocMap, keyHmap := keyHmap } i =
      t.spaceOf i := by
  rw [TunTable.spaceOf, TunTable.spaceOf]
  simp [*]

/-- An option that is added gets free units only. -/
theorem TunTable.Inv.add (h : t.Inv lens) {idx key len : Nat} {allocMap : Nat → Bool} {chains : List LocChain}
    {keyHmap : List Nat} (hidx : idx < tunMetadataNumOpts) (hnew : (t.entries idx).valid = false) (hlen : len ≤ 124)
    (halloc : Allocated t.allocMap allocMap len chains) : TunTable.Inv
      { entries := update t.entries idx ⟨key, ⟨len, chains.headD ⟨0, 0⟩, chains.tail⟩, true⟩
        allocMap := allocMap
        keyHmap := keyHmap }
      (update lens idx (some len)) := by
  have hnone := h.eq_none hnew
  have hne : ∀ {i n}, lens i = some n → i ≠ idx := by
    rintro i n hi rfl
    simp_all
  have hself : TunTable.spaceOf
      { entries := update t.entries idx ⟨key, ⟨len, chains.headD ⟨0, 0⟩, chains.tail⟩, true⟩
        allocMap := allocMap
        keyHmap := keyHmap } idx = space chains := by
    rw [TunTable.spaceOf]
    dsimp only
    rw [update_self, space_chains]
  have hfresh : ∀ j m, lens j = some m → (space chains).Disjoint (t.spaceOf j) := by
    intro j m hj b hb hb'
    have hfree := halloc.free b hb
    rw [(h.taken (b / 4)).2 ⟨j, m, hj, b, hb', rfl⟩] at hfree
    cases hfree
  constructor
  · intro i
    dsimp only
    by_cases hi : i = idx
    · simp [*]
    · rw [update_of_ne hi, update_of_ne hi, h.valid]
  · intro i n hin
    by_cases hi : i = idx
    · rwa [hi]
    · exact h.index i n (update_of_ne hi _ lens ▸ hin)
  · intro i n hin
    dsimp only
    by_cases hi : i = idx
    · subst hi
      rw [update_self] at hin ⊢
      cases hin
      exact halloc.placed hlen
    · rw [update_of_ne hi] at hin ⊢
      exact h.placed i n hin
  · intro i j n m hij hin hjm
    by_cases hi : i = idx
    · subst hi
      rw [update_of_ne (Ne.symm hij)] at hjm
      rw [hself, TunTable.spaceOf_update _ (Ne.symm hij)]
      exact hfresh j m hjm
    rw [update_of_ne hi] at hin
    rw [TunTable.spaceOf_update _ hi]
    by_cases hj : j = idx
    · subst hj
      rw [hself]
      exact (hfresh i n hin).symm
    · rw [update_of_ne hj] at hjm
      rw [TunTable.spaceOf_update _ hj]
      exact h.disjoint i j n m hij hin hjm
  · intro u
    rw [halloc.taken, h.taken]
    constructor
    · rintro (⟨i, n, hin, b, hb, hu⟩ | ⟨b, hb, hu⟩)
      · refine ⟨i, n, ?_, b, ?_, hu⟩
        · rwa [update_of_ne (hne hin)]
        · rwa [TunTable.spaceOf_update _ (hne hin)]
      · grind
    · rintro ⟨i, n, hin, b, hb, hu⟩
      by_cases hi : i = idx
      · grind
      · rw [update_of_ne hi] at hin
        rw [TunTable.spaceOf_update _ hi] at hb
        exact .inl ⟨i, n, hin, b, hb, hu⟩

/-- Clearing the units of some chains leaves those with a byte outside them. -/
theorem foldl_clear {chains : List LocChain} (haligned : Aligned chains) (u : Nat) : ∀ (map : Nat → Bool),
    chains.foldl (fun map chain => bitmapSetMultiple map (chain.offset / 4) (chain.len / 4) false) map u = true ↔
      map u = true ∧ ∀ b ∈ space chains, b / 4 ≠ u := by
  induction chains with
  | nil => simp
  | cons chain chains ih =>
    intro map
    rw [foldl_cons, ih fun c hc => haligned c (mem_cons_of_mem _ hc), space_cons]
    obtain ⟨hofs, hlen⟩ := haligned chain mem_cons_self
    have hchain : bitmapSetMultiple map (chain.offset / 4) (chain.len / 4) false u = true ↔
        map u = true ∧ ∀ b ∈ List.range' chain.offset chain.len, b / 4 ≠ u := by
      simp only [bitmapSetMultiple, mem_range'_1]
      split
      next hu =>
        constructor
        · simp
        · rintro ⟨-, hall⟩
          exact absurd (by omega) (hall (u * 4) (by omega))
      grind
    rw [hchain]
    simp only [forall_mem_append, and_assoc]

theorem TunTable.Inv.del (h : t.Inv lens) (idx : Nat) :
    (tunMetadataDelEntry t idx).Inv (update lens idx none) := by
  rw [tunMetadataDelEntry]
  split
  next hidx =>
    have hnone : lens idx = none := by
      by_contra hsome
      obtain ⟨n, hn⟩ := Option.ne_none_iff_exists'.1 hsome
      have := h.index idx n hn
      omega
    rwa [Function.update_eq_self_iff.2 hnone.symm]
  dsimp only
  split
  next hvalid =>
    obtain ⟨n₀, hn₀⟩ := Option.isSome_iff_exists.1 ((h.valid idx).symm.trans hvalid)
    have hplaced := h.placed idx n₀ hn₀
    have hold : ∀ {i n}, update lens idx none i = some n → i ≠ idx ∧ lens i = some n := by
      grind
    constructor
    · intro i
      dsimp only
      by_cases hi : i = idx
      · simp [*]
      · rw [update_of_ne hi, update_of_ne hi, h.valid]
    · exact fun i n hin => h.index i n (hold hin).2
    · intro i n hin
      dsimp only
      rw [update_of_ne (hold hin).1]
      exact h.placed i n (hold hin).2
    · intro i j n m hij hin hjm
      rw [TunTable.spaceOf_update _ (hold hin).1, TunTable.spaceOf_update _ (hold hjm).1]
      exact h.disjoint i j n m hij (hold hin).2 (hold hjm).2
    · intro u
      rw [foldl_clear hplaced.aligned, h.taken]
      constructor
      · rintro ⟨⟨i, n, hin, b, hb, hu⟩, hclear⟩
        have hi : i ≠ idx := by
          rintro rfl
          exact hclear b hb hu
        refine ⟨i, n, ?_, b, ?_, hu⟩
        · rwa [update_of_ne hi]
        · rwa [TunTable.spaceOf_update _ hi]
      · rintro ⟨i, n, hin, b, hb, hu⟩
        obtain ⟨hi, hin⟩ := hold hin
        rw [TunTable.spaceOf_update _ hi] at hb
        refine ⟨⟨i, n, hin, b, hb, hu⟩, fun b' hb' hu' => ?_⟩
        -- options that share a unit share its bytes
        have hshared := hplaced.aligned.mem_space hb' (hu.trans hu'.symm)
        exact h.disjoint i idx n n₀ hi hin hn₀ hb hshared
  next hinvalid =>
    rwa [Function.update_eq_self_iff.2 (h.eq_none (Bool.eq_false_of_not_eq_true hinvalid)).symm]

/-! ## Runs -/

theorem TunTable.Inv.addEntry (h : t.Inv lens) {m : TlvMap} (hm : m.WellFormed) {t' : TunTable}
    (hadd : tunMetadataAddEntry t m.idx m.optionClass m.optionType m.optionLen = .ok (.ok t')) :
    t'.Inv (update lens m.idx (some m.optionLen)) := by
  rw [tunMetadataAddEntry] at hadd
  split at hadd
  case isTrue => cases hadd
  case isFalse hidx =>
    split at hadd
    case isTrue => cases hadd
    case isFalse hnew =>
      dsimp only at hadd
      split at hadd
      case isTrue => cases hadd
      case isFalse =>
        obtain ⟨result, halloc, hresult⟩ := allocChains_spec t.allocMap hm.1 (le_refl _)
        rw [halloc] at hadd
        cases result with
        | none => cases hadd
        | some x =>
          cases hadd
          exact h.add (not_le.1 hidx) (Bool.eq_false_of_not_eq_true hnew) hm.2 (hresult x rfl)

theorem TunTable.Inv.addEntries : ∀ {mappings : List TlvMap} {t t' : TunTable} {lens : Lens}, t.Inv lens →
    (∀ m ∈ mappings, m.WellFormed) → Tunnel.addEntries t mappings = .ok (.ok t') →
    t'.Inv (mappings.foldl (fun lens m => update lens m.idx (some m.optionLen)) lens)
  | [], _, _, _, h, _, hadd => by
    cases hadd
    exact h
  | m :: mappings, _, _, _, h, hm, hadd => by
    obtain ⟨result, hentry, hadd⟩ := Except.bind_eq_ok hadd
    cases result with
    | error err => cases hadd
    | ok t₁ =>
      exact (h.addEntry (hm m mem_cons_self) hentry).addEntries (fun m' hm' => hm m' (mem_cons_of_mem _ hm')) hadd

theorem TunTable.Inv.delEntries : ∀ (mappings : List TlvMap) {t : TunTable} {lens : Lens}, t.Inv lens →
    (mappings.foldl (fun t m => tunMetadataDelEntry t m.idx) t).Inv
      (mappings.foldl (fun lens m => update lens m.idx none) lens)
  | [], _, _, h => h
  | m :: mappings, _, _, h => delEntries mappings (h.del m.idx)

theorem TunTable.Inv.tableMod (h : t.Inv lens) {m : TableMod} (hm : m.WellFormed) {t' : TunTable} {err : Option Ofperr}
    (hmod : tunMetadataTableMod t m = .ok (t', err)) : t'.Inv (m.apply lens err) := by
  cases m with
  | add mappings =>
    obtain ⟨result, hadd, hmod⟩ := Except.bind_eq_ok hmod
    cases result with
    | error e =>
      cases hmod
      exact h
    | ok t₁ =>
      cases hmod
      exact h.addEntries hm hadd
  | delete mappings =>
    cases hmod
    exact h.delEntries mappings
  | clear =>
    cases hmod
    exact inv_tableAlloc

theorem Reaches.inv (h : Reaches t lens) : t.Inv lens := by
  induction h with
  | init => exact inv_tableAlloc
  | mod h hm hmod ih => exact ih.tableMod hm hmod

/-- The indexes that the decoder lets through. -/
def TableMod.InRange : TableMod → Prop
  | .add mappings => ∀ m ∈ mappings, m.idx < tunMetadataNumOpts
  | _ => True

theorem tunMetadataAddEntry_returns (t : TunTable) {m : TlvMap} (hm : m.WellFormed) (hidx : m.idx < tunMetadataNumOpts) :
    ∃ result, tunMetadataAddEntry t m.idx m.optionClass m.optionType m.optionLen = .ok result := by
  obtain ⟨result, halloc, -⟩ := allocChains_spec t.allocMap hm.1 (le_refl _)
  rw [tunMetadataAddEntry, if_neg (not_le.2 hidx)]
  dsimp only
  rw [halloc]
  split
  · exact ⟨_, rfl⟩
  split
  · exact ⟨_, rfl⟩
  cases result with
  | none => exact ⟨_, rfl⟩
  | some x => exact ⟨_, rfl⟩

theorem addEntries_returns : ∀ {mappings : List TlvMap} (t : TunTable), (∀ m ∈ mappings, m.WellFormed) →
    (∀ m ∈ mappings, m.idx < tunMetadataNumOpts) → ∃ result, addEntries t mappings = .ok result
  | [], t, _, _ => ⟨.ok t, rfl⟩
  | m :: mappings, t, hm, hidx => by
    obtain ⟨result, hentry⟩ := tunMetadataAddEntry_returns t (hm m mem_cons_self) (hidx m mem_cons_self)
    rw [addEntries, hentry]
    cases result with
    | error err => exact ⟨.error err, rfl⟩
    | ok t₁ =>
      exact addEntries_returns t₁ (fun m' hm' => hm m' (mem_cons_of_mem _ hm'))
        fun m' hm' => hidx m' (mem_cons_of_mem _ hm')

/-- A command with indexes in range returns: no assertion fails and the loops end. -/
theorem tunMetadataTableMod_returns (t : TunTable) {m : TableMod} (hm : m.WellFormed) (hidx : m.InRange) :
    ∃ result, tunMetadataTableMod t m = .ok result := by
  cases m with
  | add mappings =>
    obtain ⟨result, hadd⟩ := addEntries_returns t hm hidx
    rw [tunMetadataTableMod, hadd]
    cases result with
    | error err => exact ⟨_, rfl⟩
    | ok t₁ => exact ⟨_, rfl⟩
  | delete mappings => exact ⟨_, rfl⟩
  | clear => exact ⟨_, rfl⟩

end

end LinkerOvs.Tunnel
