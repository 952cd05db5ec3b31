/-
What the pushes of a packet leave in the destination. As long as each push starts where the one before it ended, the
units of the map and the bytes that were written depend on the pushes only, whatever the destination held before.
-/
import LinkerOvs.Flows.Extract

namespace LinkerOvs.Flows

open Cls List

/-! ## Bytes written in order -/

/-- The units of the map, in order, and the bytes written. -/
structure Fill where
  units : List Nat
  bytes : List UInt8

/-- All units are below `next`, in order, and at most `count`; `pend` bytes of the last one are written, or all of
them if there is none to come. -/
structure Fill.At (next count pend : Nat) (F : Fill) : Prop where
  ordered : F.units.Pairwise (· < ·)
  below : ∀ u ∈ F.units, u < next
  count : F.units.length ≤ count
  pend_lt : pend < 8
  bytes : 8 * F.units.length = F.bytes.length + (8 - pend) % 8

/-- A push that goes on where the last one ended. -/
inductive Push.Fills : Fill → Push → Fill → Prop
  | words {F : Fill} {ofs : Nat} {value : List UInt8} {n : Nat} (hpend : F.bytes.length % 8 = 0)
      (hvalue : value.length = 8 * n) :
      Fills F (.words ofs value n) ⟨F.units ++ List.range' (ofs / 8) n, F.bytes ++ value⟩
  | words32 {F : Fill} {ofs : Nat} {value : List UInt8} {n : Nat} (hpend : F.bytes.length % 8 = 0)
      (hvalue : value.length = 4 * n) :
      Fills F (.words32 ofs value n)
        ⟨F.units ++ List.range' (ofs / 8) ((n + 1) / 2), F.bytes ++ (value ++ List.replicate (4 * (n % 2)) 0)⟩
  | macs {F : Fill} {ofs : Nat} {value : List UInt8} (hpend : F.bytes.length % 8 = 0) (hvalue : value.length = 12) :
      Fills F (.macs ofs value) ⟨F.units ++ List.range' (ofs / 8) 2, F.bytes ++ value⟩
  | lower32 {F : Fill} {ofs : Nat} {value : UInt32} (hpend : F.bytes.length % 8 = 0) (hofs : ofs % 8 = 0) :
      Fills F (.uint32 ofs value) ⟨F.units ++ List.range' (ofs / 8) 1, F.bytes ++ store32 value⟩
  | upper32 {F : Fill} {ofs : Nat} {value : UInt32} (hpend : F.bytes.length % 8 = 4) (hofs : ofs % 8 = 4) :
      Fills F (.uint32 ofs value) ⟨F.units, F.bytes ++ store32 value⟩
  | first16 {F : Fill} {ofs : Nat} {value : UInt16} (hpend : F.bytes.length % 8 = 0) (hofs : ofs % 8 = 0) :
      Fills F (.uint16 ofs value) ⟨F.units ++ List.range' (ofs / 8) 1, F.bytes ++ store16 value⟩
  | next16 {F : Fill} {ofs : Nat} {value : UInt16} (hpend : F.bytes.length % 8 = ofs % 8)
      (hofs : ofs % 8 = 2 ∨ ofs % 8 = 4 ∨ ofs % 8 = 6) : Fills F (.uint16 ofs value) ⟨F.units, F.bytes ++ store16 value⟩
  | padTo64 {F : Fill} {ofs : Nat} (hpend : F.bytes.length % 8 = ofs % 8) (hofs : ofs % 8 ≠ 0) :
      Fills F (.padTo64 ofs) ⟨F.units, F.bytes ++ List.replicate (8 - ofs % 8) 0⟩

/-- The pushes, each going on where the last one ended, write this. -/
inductive Filled : List Push → Fill → Prop
  | nil : Filled [] ⟨[], []⟩
  | snoc {ps : List Push} {p : Push} {F F' : Fill} (h : Filled ps F) (hp : p.Fills F F') : Filled (ps ++ [p]) F'

/-! ## The destination -/

def mapOf (units : List Nat) : Flowmap := (List.finRange flowU64s).filter fun i => i.val ∈ units

/-- The destination `dst` starts with what was written, and the rest of it is as before. -/
structure Holds (dst : List UInt8) (F : Fill) (mf : MfCtx) : Prop where
  map : mf.map = mapOf F.units
  data : mf.data = F.bytes.length / 8
  buf : mf.buf = F.bytes ++ dst.drop F.bytes.length

theorem flowmapSet_mapOf (units : List Nat) (idx n : Nat) :
    flowmapSet (mapOf units) idx n = mapOf (units ++ List.range' idx n) := by
  unfold flowmapSet mapOf
  simp

theorem write_after {dst w new : List UInt8} {ofs : Nat} (hofs : ofs = w.length) :
    Bytes.write (w ++ dst.drop w.length) ofs new = (w ++ new) ++ dst.drop (w ++ new).length := by
  subst hofs
  rw [Bytes.write, take_left, drop_length_add_append, drop_drop, length_append]

variable {dst : List UInt8}

theorem Holds.write {F : Fill} {mf : MfCtx} (h : Holds dst F mf) {ofs : Nat} {new : List UInt8}
    (hofs : ofs = F.bytes.length) {units : List Nat} {map : Flowmap} {data : Nat} (hmap : map = mapOf units)
    (hdata : data = (F.bytes.length + new.length) / 8) :
    Holds dst ⟨units, F.bytes ++ new⟩ ⟨map, data, Bytes.write mf.buf ofs new⟩ := by
  refine ⟨hmap, ?_, ?_⟩
  · rw [hdata, length_append]
  · rw [h.buf]
    exact write_after hofs

@[simp] theorem length_store32 (x : UInt32) : (store32 x).length = 4 := rfl

@[simp] theorem length_store16 (x : UInt16) : (store16 x).length = 2 := rfl

theorem Push.Fills.holds {F F' : Fill} {p : Push} {mf : MfCtx} (h : p.Fills F F') (hF : Holds dst F mf) :
    Holds dst F' (p.run mf) := by
  have hdata := hF.data
  have hset : ∀ idx n, flowmapSet mf.map idx n = mapOf (F.units ++ List.range' idx n) := fun idx n => by
    rw [hF.map, flowmapSet_mapOf]
  cases h with
  | words hpend hvalue => exact hF.write (by omega) (hset _ _) (by omega)
  | @words32 ofs value n hpend hvalue =>
    rw [Push.run]
    have hstart : 8 * mf.data = F.bytes.length := by omega
    have hunits : (F.bytes.length + value.length) / 8 = (F.bytes.length + value.length) / 8 := rfl
    have hfirst := hF.write hstart (hset (ofs / 8) ((n + 1) / 2)) hunits
    rcases Nat.mod_two_eq_zero_or_one n with heven | hodd
    · rw [heven, replicate_zero, append_nil]
      grind
    -- the last half of a unit is zeroed
    rw [hodd, ← append_assoc]
    have hend : 8 * (mf.data + (n + 1) / 2) - 4 = (F.bytes ++ value).length := by
      rw [length_append]
      omega
    have hdata' : mf.data + (n + 1) / 2 = ((F.bytes ++ value).length + ([0, 0, 0, 0] : List UInt8).length) / 8 := by
      simp only [length_cons, length_nil]
      omega
    exact hfirst.write hend hfirst.map hdata'
  | macs hpend hvalue => exact hF.write (by omega) (hset _ _) (by omega)
  | lower32 hpend hofs =>
    rw [Push.run, if_pos hofs]
    exact hF.write (by omega) (hset _ _) (by rw [length_store32]; omega)
  | upper32 hpend hofs =>
    rw [Push.run, if_neg (by omega), if_pos hofs]
    exact hF.write (by omega) hF.map (by rw [length_store32]; omega)
  | first16 hpend hofs =>
    rw [Push.run, if_pos hofs]
    exact hF.write (by omega) (hset _ _) (by rw [length_store16]; omega)
  | next16 hpend hofs =>
    rw [Push.run]
    rcases hofs with hofs | hofs | hofs <;> simp only [hofs, OfNat.ofNat_ne_zero] <;>
      exact hF.write (by omega) hF.map (by rw [length_store16]; omega)
  | @padTo64 ofs hpend hofs =>
    exact hF.write (by omega) hF.map (by rw [length_replicate]; omega)

theorem Filled.holds {ps : List Push} {F : Fill} (h : Filled ps F) (dst : List UInt8) :
    Holds dst F (ps.foldl Push.run ⟨[], 0, dst⟩) := by
  induction h with
  | nil => exact ⟨(filter_eq_nil_iff.2 fun _ _ => by simp).symm, rfl, rfl⟩
  | snoc _ hp ih =>
    rw [foldl_append]
    exact hp.holds ih

theorem map_val_mapOf {units : List Nat} (hordered : units.Pairwise (· < ·)) (hlt : ∀ u ∈ units, u < flowU64s) :
    (mapOf units).map Fin.val = units := by
  have hsorted : ((mapOf units).map Fin.val).Pairwise (· < ·) := by
    refine List.Pairwise.map _ (fun _ _ h => h) (List.Pairwise.filter _ ?_)
    exact pairwise_lt_finRange _
  refine List.Perm.eq_of_pairwise (fun a b _ _ h h' => absurd h' (Nat.lt_asymm h)) hsorted hordered ?_
  refine (perm_ext_iff_of_nodup (hsorted.imp Nat.ne_of_lt) (hordered.imp Nat.ne_of_lt)).2 fun u => ?_
  rw [mem_map]
  constructor
  · rintro ⟨i, hi, rfl⟩
    exact of_decide_eq_true (mem_filter.1 hi).2
  · intro hu
    exact ⟨⟨u, hlt u hu⟩, mem_filter.2 ⟨mem_finRange _, decide_eq_true hu⟩, rfl⟩

/-! ## What a push does -/

section

variable {F : Fill} {next count : Nat}

theorem Fill.At.extend {pend pend' idx n : Nat} {new : List UInt8} (h : F.At next count pend) (hidx : next ≤ idx)
    (hpend : pend' < 8) (hbytes : 8 * (F.units.length + n) = F.bytes.length + new.length + (8 - pend') % 8) :
    Fill.At (idx + n) (count + n) pend' ⟨F.units ++ List.range' idx n, F.bytes ++ new⟩ := by
  refine ⟨?_, ?_, ?_, hpend, ?_⟩
  · refine pairwise_append.2 ⟨h.ordered, pairwise_lt_range' .., fun u hu v hv => ?_⟩
    have := h.below u hu
    have := (mem_range'_1.1 hv).1
    omega
  · intro u hu
    rcases mem_append.1 hu with hu | hu
    · have := h.below u hu
      omega
    · exact (mem_range'_1.1 hu).2
  · simp only [length_append, length_range']
    exact Nat.add_le_add_right h.count _
  · simpa only [length_append, length_range'] using hbytes

theorem Fill.At.continue {pend pend' : Nat} {new : List UInt8} (h : F.At next count pend) (hpend : pend' < 8)
    (hbytes : 8 * F.units.length = F.bytes.length + new.length + (8 - pend') % 8) :
    Fill.At next count pend' ⟨F.units, F.bytes ++ new⟩ := by
  refine ⟨h.ordered, h.below, h.count, hpend, ?_⟩
  rwa [length_append]

end

end LinkerOvs.Flows
