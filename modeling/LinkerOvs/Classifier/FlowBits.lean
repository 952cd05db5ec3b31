/-
Flows bit by bit: agreement on the bits of some wildcards, the bits that folding a mask or a prefix into
wildcards sets, and what the prefix length of a mask says about its bits.
-/
import LinkerOvs.Classifier.Flow

namespace LinkerOvs.Cls

open List

/-! ## Agreement -/

namespace Flow

/-- Every bit of `w` is in `w'`. -/
def Sub (w w' : Flow) : Prop := ∀ i j, (w i).getLsbD j = true → (w' i).getLsbD j = true

variable {w w' w'' f f' : Flow}

theorem Sub.refl (w : Flow) : w.Sub w := fun _ _ h => h

theorem Sub.trans (h : w.Sub w') (h' : w'.Sub w'') : w.Sub w'' := fun i j hj => h' i j (h i j hj)

theorem agrees_iff : w.Agrees f f' ↔ ∀ i j, (w i).getLsbD j = true → (f i).getLsbD j = (f' i).getLsbD j := by
  constructor
  · intro h i j hj
    have hbit := congrArg (BitVec.getLsbD · j) (h i)
    simpa [hj] using hbit
  · intro h i
    apply BitVec.eq_of_getLsbD_eq
    grind

theorem Agrees.refl (w f : Flow) : w.Agrees f f := agrees_iff.2 fun _ _ _ => rfl

theorem Agrees.mono (h : w'.Agrees f f') (hsub : w.Sub w') : w.Agrees f f' :=
  agrees_iff.2 fun i j hj => agrees_iff.1 h i j (hsub i j hj)

theorem Agrees.symm (h : w.Agrees f f') : w.Agrees f' f :=
  agrees_iff.2 fun i j hj => (agrees_iff.1 h i j hj).symm

theorem Agrees.trans {f'' : Flow} (h : w.Agrees f f') (h' : w.Agrees f' f'') : w.Agrees f f'' :=
  agrees_iff.2 fun i j hj => (agrees_iff.1 h i j hj).trans (agrees_iff.1 h' i j hj)

theorem Agrees.and_eq (h : w.Agrees f f') (i : Fin flowU64s) : f i &&& w i = f' i &&& w i := by
  apply BitVec.eq_of_getLsbD_eq
  intro j _
  cases hw : (w i).getLsbD j with
  | false => simp [hw]
  | true => simp [hw, agrees_iff.1 h i j hw]

theorem and_eq_of_fold {map : Flowmap} {wc mask : Flow}
    (h : (flowWildcardsFoldMinimaskInMap wc mask map).Agrees f f') {i : Fin flowU64s} (hi : i ∈ map) :
    f i &&& mask i = f' i &&& mask i := by
  apply BitVec.eq_of_getLsbD_eq
  intro j _
  cases hm : (mask i).getLsbD j with
  | false => simp [hm]
  | true =>
    have hbit := agrees_iff.1 h i j (by simp [flowWildcardsFoldMinimaskInMap, hi, hm])
    simp [hbit]

theorem sub_fold (wc mask : Flow) (map : Flowmap) : wc.Sub (flowWildcardsFoldMinimaskInMap wc mask map) := by
  intro i j hj
  unfold flowWildcardsFoldMinimaskInMap
  split
  · simp [hj]
  · exact hj

theorem mask_sub_fold (wc mask : Flow) : mask.Sub (flowWildcardsFoldMinimask wc mask) := by
  intro i j hj
  have hi : i ∈ minimaskMap mask := by
    simp only [minimaskMap, mem_filter, mem_finRange, true_and, decide_eq_true_eq]
    intro hzero
    simp [hzero] at hj
  simp [flowWildcardsFoldMinimask, flowWildcardsFoldMinimaskInMap, hi, hj]

theorem sub_update_or (wc : Flow) (i : Fin flowU64s) (x : BitVec 64) : wc.Sub (Function.update wc i (wc i ||| x)) := by
  intro k j hj
  grind

theorem Agrees.setConjId (h : w.Agrees f f') (id : UInt32) : w.Agrees (f.setConjId id) (f'.setConjId id) := by
  rw [agrees_iff] at h ⊢
  intro i j hj
  unfold Flow.setConjId
  by_cases hi : i = conjIdU64
  · subst hi
    simp [h _ j hj]
  · simp [*]

/-! ## Bits in memory order -/

variable {p : Nat}

theorem Sub.bit (h : w.Sub w') (hp : w.bit p = true) : w'.bit p = true := by
  unfold Flow.bit at hp ⊢
  split at hp
  · rename_i hlt
    rw [dif_pos hlt]
    exact h _ _ hp
  · cases hp

theorem Agrees.bit_eq (h : w.Agrees f f') (hp : w.bit p = true) : f.bit p = f'.bit p := by
  unfold Flow.bit at hp ⊢
  split at hp
  · rename_i hlt
    rw [dif_pos hlt, dif_pos hlt]
    exact agrees_iff.1 h _ _ hp
  · cases hp

theorem getLsbD_be32 (f : Flow) {ofs j : Nat} (h : ofs / 2 < flowU64s) (hj : j < 32) :
    (f.be32 ofs).toBitVec.getLsbD j = (f ⟨ofs / 2, h⟩).getLsbD (32 * (ofs % 2) + j) := by
  simp [Flow.be32, h, hj]

theorem bit_eq_be32 (f : Flow) (h : p / 64 < flowU64s) :
    f.bit p = (ntohl (f.be32 (p / 32))).toBitVec.getLsbD (31 - p % 32) := by
  have h' : p / 32 / 2 < flowU64s := by omega
  rw [getLsbD_ntohl _ (by omega), getLsbD_be32 f h' (by omega), Flow.bit, dif_pos h]
  have hi : (⟨p / 64, h⟩ : Fin flowU64s) = ⟨p / 32 / 2, h'⟩ := by
    grind
  rw [hi]
  congr 1
  omega

theorem sub_orBe32 (wc : Flow) (ofs : Nat) (x : UInt32) : wc.Sub (wc.orBe32 ofs x) := by
  unfold Flow.orBe32
  split
  · exact sub_update_or wc _ _
  · exact Sub.refl wc

theorem be32_orBe32_self (wc : Flow) {ofs : Nat} (h : ofs / 2 < flowU64s) (x : UInt32) {j : Nat} (hj : j < 32)
    (hx : x.toBitVec.getLsbD j = true) : ((wc.orBe32 ofs x).be32 ofs).toBitVec.getLsbD j = true := by
  rw [getLsbD_be32 _ h hj, Flow.orBe32, dif_pos h]
  have hlt : 32 * (ofs % 2) + j < 64 := by omega
  simp [hx, hlt]

theorem bit_orBe32 (wc : Flow) (h : p / 64 < flowU64s) {x : UInt32}
    (hx : (ntohl x).toBitVec.getLsbD (31 - p % 32) = true) : (wc.orBe32 (p / 32) x).bit p = true := by
  rw [getLsbD_ntohl _ (by omega)] at hx
  rw [bit_eq_be32 _ h, getLsbD_ntohl _ (by omega)]
  exact be32_orBe32_self wc (by omega) x (by omega) hx

end Flow

/-! ## Prefixes of a field -/

variable {n be32ofs nBits k j : Nat} {x : UInt32} {mask : Flow}

theorem getLsbD_be32PrefixMask {m : Nat} (hm : m < n) (hm' : m < 32) :
    (ntohl (be32PrefixMask n)).toBitVec.getLsbD (31 - m) = true := by
  have hinv : ∀ x : UInt32, ntohl (htonl x) = x := htonl_ntohl
  have hbit : ∀ j < 32, (0xffffffff#32).getLsbD j = true := by decide
  rw [be32PrefixMask, if_neg (by omega), hinv, BitVec.getLsbD_shiftLeft, hbit _ (by omega)]
  simp
  omega

theorem foldl_orBe32_spec (wc : Flow) (be32ofs n : Nat) :
    wc.Sub ((List.range n).foldl (fun wc i => wc.orBe32 (be32ofs + i) 0xffffffff) wc) ∧
      ∀ p, p / 64 < flowU64s → be32ofs ≤ p / 32 → p / 32 < be32ofs + n →
        ((List.range n).foldl (fun wc i => wc.orBe32 (be32ofs + i) 0xffffffff) wc).bit p = true := by
  induction n with
  | zero => exact ⟨Flow.Sub.refl wc, fun p _ _ _ => by omega⟩
  | succ n ih =>
    rw [range_succ, foldl_append]
    refine ⟨ih.1.trans (Flow.sub_orBe32 _ _ _), fun p hp hge hlt => ?_⟩
    by_cases hn : p / 32 < be32ofs + n
    · exact (Flow.sub_orBe32 _ _ _).bit (ih.2 p hp hge hn)
    · have hofs : be32ofs + n = p / 32 := by omega
      rw [foldl_cons, hofs]
      have hbit : ∀ j < 32, (ntohl 0xffffffff).toBitVec.getLsbD j = true := by decide
      exact Flow.bit_orBe32 _ hp (hbit _ (by omega))

theorem sub_maskSetPrefixBits (wc : Flow) (be32ofs nBits : Nat) : wc.Sub (maskSetPrefixBits wc be32ofs nBits) := by
  have hfull := (foldl_orBe32_spec wc be32ofs (nBits / 32)).1
  unfold maskSetPrefixBits
  split
  · exact hfull.trans (Flow.sub_orBe32 _ _ _)
  · exact hfull

theorem bit_maskSetPrefixBits (wc : Flow) (hk : k < nBits) (hp : (32 * be32ofs + k) / 64 < flowU64s) :
    (maskSetPrefixBits wc be32ofs nBits).bit (32 * be32ofs + k) = true := by
  have hfull := (foldl_orBe32_spec wc be32ofs (nBits / 32)).2 _ hp (by omega)
  unfold maskSetPrefixBits
  by_cases hlt : k / 32 < nBits / 32
  · have hset := hfull (by omega)
    split
    · exact (Flow.sub_orBe32 _ _ _).bit hset
    · exact hset
  · have hofs : be32ofs + nBits / 32 = (32 * be32ofs + k) / 32 := by omega
    rw [if_pos (by omega), hofs]
    apply Flow.bit_orBe32 _ hp
    exact getLsbD_be32PrefixMask (by omega) (by omega)

theorem getLsbD_of_not_and_eq_zero {a : UInt32} (h : ~~~a &&& x = 0) (hj : j < 32) (hx : x.toBitVec.getLsbD j = true)
    : a.toBitVec.getLsbD j = true := by
  have hbit : (~~~a &&& x).toBitVec.getLsbD j = false := by rw [h]; exact BitVec.getLsbD_zero
  rw [UInt32.toBitVec_and, UInt32.toBitVec_not, BitVec.getLsbD_and, BitVec.getLsbD_not, hx, decide_eq_true hj] at hbit
  simpa using hbit

theorem bit_of_maskPrefixBitsSet {wc : Flow} (h : maskPrefixBitsSet wc be32ofs nBits = true) (hk : k < nBits)
    (hp : (32 * be32ofs + k) / 64 < flowU64s) : wc.bit (32 * be32ofs + k) = true := by
  simp only [maskPrefixBitsSet, Bool.and_eq_true, all_eq_true, mem_range, decide_eq_true_eq,
    Bool.or_eq_true] at h
  have hunit : ∀ {x : UInt32}, ~~~wc.be32 ((32 * be32ofs + k) / 32) &&& x = 0 →
      (ntohl x).toBitVec.getLsbD (31 - (32 * be32ofs + k) % 32) = true → wc.bit (32 * be32ofs + k) = true := by
    intro x hzero hx
    rw [getLsbD_ntohl _ (by omega)] at hx
    rw [Flow.bit_eq_be32 _ hp, getLsbD_ntohl _ (by omega)]
    exact getLsbD_of_not_and_eq_zero hzero (by omega) hx
  by_cases hlt : k / 32 < nBits / 32
  · have hfull := h.1 (k / 32) hlt
    rw [show be32ofs + k / 32 = (32 * be32ofs + k) / 32 by omega] at hfull
    have hbit : ∀ j < 32, (ntohl 0xffffffff).toBitVec.getLsbD j = true := by decide
    refine hunit (x := 0xffffffff) ?_ (hbit _ (by omega))
    rw [hfull, UInt32.zero_and]
  · rcases h.2 with hmod | hrest
    · omega
    · rw [show be32ofs + nBits / 32 = (32 * be32ofs + k) / 32 by omega] at hrest
      exact hunit hrest (getLsbD_be32PrefixMask (by omega) (by omega))

/-! ## The prefix length of a mask -/

theorem testBit_of_and_succ_eq_zero : ∀ {x i j : Nat}, x &&& (x + 1) = 0 → x.testBit j = true → i < j →
    x.testBit i = true := by
  intro x
  induction x using Nat.strong_induction_on with
  | _ x ih =>
    intro i j h hj hij
    obtain ⟨j, rfl⟩ := Nat.exists_eq_succ_of_ne_zero (show j ≠ 0 by omega)
    have hhalf : x / 2 &&& (x + 1) / 2 = 0 := by rw [← Nat.and_div_two, h]
    rcases Nat.mod_two_eq_zero_or_one x with hx | hx
    · -- an even number and its successor differ in the lowest bit only
      rw [show (x + 1) / 2 = x / 2 by omega, Nat.and_self] at hhalf
      grind
    rw [show (x + 1) / 2 = x / 2 + 1 by omega] at hhalf
    rw [Nat.testBit_succ] at hj
    rcases i with _ | i
    · simp [*]
    · grind

theorem getLsbD_ctz32 (h : ctz32 x < 32) : x.toBitVec.getLsbD (ctz32 x) = true := by
  unfold ctz32 at h ⊢
  cases hfind : (List.range 32).find? fun j => x.toBitVec.getLsbD j with
  | none => simp [hfind] at h
  | some j => simpa using find?_some hfind

theorem getLsbD_of_ctz32_le {mask : UInt32} (h : ~~~mask &&& (~~~mask + 1) = 0) (hj : j < 32) (hctz : ctz32 mask ≤ j)
    : mask.toBitVec.getLsbD j = true := by
  have hlow := getLsbD_ctz32 (show ctz32 mask < 32 by omega)
  have hnot : ∀ {i}, i < 32 → ((~~~mask).toNat.testBit i = !mask.toBitVec.getLsbD i) := by
    intro i hi
    rw [← UInt32.toNat_toBitVec, BitVec.testBit_toNat, UInt32.toBitVec_not, BitVec.getLsbD_not, decide_eq_true hi,
      Bool.true_and]
  -- the complement does not wrap around, since the mask has a bit
  have hsucc : (~~~mask + 1).toNat = (~~~mask).toNat + 1 := by
    have hne : mask.toNat ≠ 0 := by
      intro hzero
      rw [BitVec.eq_of_toNat_eq (hzero.trans (BitVec.toNat_zero ..).symm), BitVec.getLsbD_zero] at hlow
      cases hlow
    rw [UInt32.toNat_add, UInt32.toNat_not]
    grind
  have hnat : (~~~mask).toNat &&& ((~~~mask).toNat + 1) = 0 := by
    rw [← hsucc, ← UInt32.toNat_and, h]
    rfl
  by_contra hbit
  have hj' : (~~~mask).toNat.testBit j = true := by
    simp_all
  have hctz' : (~~~mask).toNat.testBit (ctz32 mask) = true := by
    rcases Nat.lt_or_eq_of_le hctz with hlt | heq
    · exact testBit_of_and_succ_eq_zero hnat hj' hlt
    · rw [heq]
      exact hj'
  rw [hnot (by omega), hlow] at hctz'
  cases hctz'

theorem prefixLenLoop_ended {tz : Nat} (htz : tz ≠ 0) : ∀ (ms : List UInt32) (n : Nat),
    prefixLenLoop ms n tz = n ∨ prefixLenLoop ms n tz = 0
  | [], _ => .inl rfl
  | m :: ms, n => by
    unfold prefixLenLoop
    rw [if_pos htz]
    split
    · exact .inr rfl
    · exact prefixLenLoop_ended htz ms n

/-- What `minimask_get_prefix_len` has seen after some full words: every bit it counts is set. -/
theorem prefixLenLoop_spec : ∀ {ms : List UInt32} {n i : Nat}, prefixLenLoop ms (32 * i) 0 = n →
    n ≤ 32 * (i + ms.length) ∧ ∀ k, 32 * i ≤ k → k < n →
      ∃ m ∈ ms[k / 32 - i]?, m.toBitVec.getLsbD (31 - k % 32) = true
  | [], n, i, h => by
    rw [prefixLenLoop] at h
    simp [*]
  | m :: ms, n, i, h => by
    rw [prefixLenLoop, if_neg (by simp)] at h
    rw [length_cons]
    split at h
    · exact ⟨by omega, fun k hk hlt => by omega⟩
    rename_i hcontig
    rw [not_ne_iff] at hcontig
    have hhead : ∀ k, 32 * i ≤ k → k < 32 * i + (32 - ctz32 m) →
        ∃ m' ∈ (m :: ms)[k / 32 - i]?, m'.toBitVec.getLsbD (31 - k % 32) = true := by
      intro k hk hlt
      rw [show k / 32 - i = 0 by omega]
      exact ⟨m, rfl, getLsbD_of_ctz32_le hcontig (by omega) (by omega)⟩
    by_cases hctz : ctz32 m = 0
    · -- a full word, and the mask may go on
      rw [hctz, show 32 * i + (32 - 0) = 32 * (i + 1) by omega] at h
      obtain ⟨hle, hbits⟩ := prefixLenLoop_spec h
      refine ⟨by omega, fun k hk hlt => ?_⟩
      by_cases hk' : k < 32 * (i + 1)
      · exact hhead k hk (by omega)
      · grind
    · rcases prefixLenLoop_ended hctz ms (32 * i + (32 - ctz32 m)) with heq | heq <;> rw [heq] at h
      · exact ⟨by omega, fun k hk hlt => hhead k hk (by omega)⟩
      · exact ⟨by omega, fun k hk hlt => by omega⟩

theorem bit_of_lt_minimaskGetPrefixLen (hk : k < minimaskGetPrefixLen mask be32ofs nBits) :
    mask.bit (32 * be32ofs + k) = true := by
  obtain ⟨hle, hbits⟩ := prefixLenLoop_spec (i := 0) (show _ = minimaskGetPrefixLen mask be32ofs nBits from rfl)
  obtain ⟨m, hm, hbit⟩ := hbits k (by omega) hk
  rw [length_map, length_range] at hle
  rw [Nat.sub_zero, getElem?_map, getElem?_range (by omega), Option.map_some, Option.mem_some] at hm
  subst hm
  rw [show be32ofs + k / 32 = (32 * be32ofs + k) / 32 by omega, show k % 32 = (32 * be32ofs + k) % 32 by omega] at hbit
  by_cases hp : (32 * be32ofs + k) / 64 < flowU64s
  · rw [Flow.bit_eq_be32 _ hp]
    exact hbit
  -- there are no bits behind the end of a flow
  rw [Flow.be32, dif_neg (by omega)] at hbit
  have hzero : ∀ j < 32, (ntohl 0).toBitVec.getLsbD j = false := by decide
  rw [hzero _ (by omega)] at hbit
  cases hbit

theorem minimaskGetPrefixLen_le (mask : Flow) (be32ofs nBits : Nat) : minimaskGetPrefixLen mask be32ofs nBits ≤ nBits := by
  have hle := (prefixLenLoop_spec (i := 0) (show _ = minimaskGetPrefixLen mask be32ofs nBits from rfl)).1
  rw [length_map, length_range] at hle
  omega

/-! ## Fields and ports -/

@[simp] theorem length_fieldBits (f : Flow) (be32ofs nBits : Nat) : (f.fieldBits be32ofs nBits).length = nBits := by
  simp [Flow.fieldBits]

theorem take_fieldBits_eq {f f' : Flow}
    (h : ∀ k < n, f.bit (32 * be32ofs + k) = f'.bit (32 * be32ofs + k)) :
    (f.fieldBits be32ofs nBits).take n = (f'.fieldBits be32ofs nBits).take n := by
  unfold Flow.fieldBits
  rw [← map_take, ← map_take, take_range]
  simp_all

/-- A flow that agrees with another on a mask has the same prefix of a field, as far as the mask has a prefix. -/
theorem take_fieldBits_of_agrees {f f' : Flow} (h : mask.Agrees f f') (be32ofs nBits : Nat) :
    (f.fieldBits be32ofs nBits).take (minimaskGetPrefixLen mask be32ofs nBits) =
      (f'.fieldBits be32ofs nBits).take (minimaskGetPrefixLen mask be32ofs nBits) :=
  take_fieldBits_eq fun _ hk => h.bit_eq (bit_of_lt_minimaskGetPrefixLen hk)

@[simp] theorem length_maskedPorts (f mask : Flow) : (maskedPorts f mask).length = 32 := by
  simp [maskedPorts]

theorem take_maskedPorts_eq {f f' : Flow}
    (h : ∀ k < n, k < 32 → mask.bit (32 * tpPortsOfs32 + k) = true →
      f.bit (32 * tpPortsOfs32 + k) = f'.bit (32 * tpPortsOfs32 + k)) :
    (maskedPorts f mask).take n = (maskedPorts f' mask).take n := by
  unfold maskedPorts
  rw [← map_take, ← map_take, take_range]
  apply map_congr_left
  grind

theorem ctz32_le (hj : j < 32) (hx : x.toBitVec.getLsbD j = true) : ctz32 x ≤ j := by
  unfold ctz32
  cases hfind : (List.range 32).find? fun j => x.toBitVec.getLsbD j with
  | none => exact absurd hx (find?_eq_none.1 hfind j (mem_range.2 hj))
  | some k =>
    obtain ⟨-, -, hmin⟩ := find?_range_eq_some.1 hfind
    grind

theorem lt_portsMaskLen (hk : k < 32) (hbit : mask.bit (32 * tpPortsOfs32 + k) = true) : k < portsMaskLen mask := by
  rw [Flow.bit_eq_be32 _ (by unfold tpPortsOfs32 flowU64s; omega), show (32 * tpPortsOfs32 + k) / 32 = tpPortsOfs32 by omega,
    show (32 * tpPortsOfs32 + k) % 32 = k by omega] at hbit
  have hle := ctz32_le (by omega) hbit
  unfold portsMaskLen
  omega

theorem bit_orBe32_ports (wc mask : Flow) (hk : k < 32) (hkn : k < n)
    (hbit : mask.bit (32 * tpPortsOfs32 + k) = true) :
    (wc.orBe32 tpPortsOfs32 (mask.be32 tpPortsOfs32 &&& be32PrefixMask n)).bit (32 * tpPortsOfs32 + k) = true := by
  have hp : (32 * tpPortsOfs32 + k) / 64 < flowU64s := by unfold tpPortsOfs32 flowU64s; omega
  have hofs : (32 * tpPortsOfs32 + k) / 32 = tpPortsOfs32 := by omega
  have hmod : (32 * tpPortsOfs32 + k) % 32 = k := by omega
  rw [Flow.bit_eq_be32 _ hp, hofs, hmod, getLsbD_ntohl _ (by omega)] at hbit
  have hprefix := getLsbD_be32PrefixMask hkn hk
  rw [getLsbD_ntohl _ (by omega)] at hprefix
  have hor := Flow.bit_orBe32 wc hp (x := mask.be32 tpPortsOfs32 &&& be32PrefixMask n) (by
    rw [hmod, getLsbD_ntohl _ (by omega), UInt32.toBitVec_and, BitVec.getLsbD_and, hbit, hprefix]
    rfl)
  simp_all

theorem getLsbD_ports (f : Flow) {i : Fin flowU64s} (hi : i.val = 68) (hj : j < 32) :
    (f i).getLsbD j = f.bit (32 * tpPortsOfs32 + (j / 8 * 8 + (7 - j % 8))) := by
  have hlt : (32 * tpPortsOfs32 + (j / 8 * 8 + (7 - j % 8))) / 64 = 68 := by unfold tpPortsOfs32; omega
  have hbound : (32 * tpPortsOfs32 + (j / 8 * 8 + (7 - j % 8))) / 64 < flowU64s := by rw [hlt]; decide
  have hword : (⟨_, hbound⟩ : Fin flowU64s) = i := Fin.ext (hlt.trans hi.symm)
  rw [Flow.bit, dif_pos hbound, hword]
  congr 1
  unfold tpPortsOfs32
  omega

end LinkerOvs.Cls
