/-
Which literals `json_lex_number` reads exactly. What the loops leave in the local variables is a function of the digits;
as long as no leading digits spell 2^64 or one of the three numbers after it, that is the value of the digits the
significand has room for, and what is dropped after them is either zeros or makes the value too large or fractional.
-/
import LinkerOvs.Json.Number

namespace LinkerOvs.Json

open List

open Decimal (Digit value value_snoc value_append value_lt value_le_append)

/-! ## The loops over digits -/

theorem isDigit_digitByte (d : Digit) : isDigit (digitByte d) = true := by
  revert d
  decide

theorem digit_digitByte (d : Digit) : digit (digitByte d) = d := by
  revert d
  decide

theorem digitByte_bne_zero (d : Digit) : (digitByte d != byte '0') = decide (d ≠ 0) := by
  revert d
  decide

theorem digitByte_ne {c : UInt8} (h : isDigit c = false) (d : Digit) : digitByte d ≠ c := by
  rintro rfl
  rw [isDigit_digitByte] at h
  cases h

theorem scanDigits_digitBytes {σ : Type} (step : σ → UInt8 → Except Stop σ) (ds : List Digit) {rest : List UInt8}
    (h : startsDigit rest = false) : ∀ s, scanDigits step s (digitBytes ds ++ rest) =
      (ds.foldlM (fun s d => step s (digitByte d)) s).map fun s => (s, rest) := by
  induction ds with
  | nil =>
    intro s
    cases rest with
    | nil => rfl
    | cons c cp =>
      show scanDigits step s (c :: cp) = _
      rw [scanDigits, if_neg (by rw [show isDigit c = false from h]; decide)]
      rfl
  | cons d ds ih =>
    intro s
    show scanDigits step s (digitByte d :: (digitBytes ds ++ rest)) = _
    rw [scanDigits, if_pos (isDigit_digitByte d), foldlM_cons]
    cases step s (digitByte d) with
    | error e => rfl
    | ok s' => exact ih s'

theorem foldlM_snoc {σ : Type} (step : σ → Digit → Except Stop σ) (s : σ) (ds : List Digit) (d : Digit) :
    (ds ++ [d]).foldlM step s = ds.foldlM step s >>= fun s => step s d := by
  simp only [foldlM_append, foldlM_cons, foldlM_nil, bind_pure]

/-- What the significand has taken in: its value, the number of digits, and whether something else than zeros was
dropped. -/
structure Kept where
  significand : Nat
  kept : Nat
  imprecise : Bool

def keep (k : Kept) (d : Digit) : Kept :=
  if k.significand ≤ ullongMax / 10 then ⟨(k.significand * 10 + d) % 2 ^ 64, k.kept + 1, k.imprecise⟩
  else ⟨k.significand, k.kept, k.imprecise || decide (d ≠ 0)⟩

def keepAll (ds : List Digit) : Kept := ds.foldl keep ⟨0, 0, false⟩

theorem keepAll_snoc (ds : List Digit) (d : Digit) : keepAll (ds ++ [d]) = keep (keepAll ds) d := by
  rw [keepAll, foldl_append]
  rfl

theorem keepAll_kept_le (ds : List Digit) : (keepAll ds).kept ≤ ds.length := by
  induction ds using List.reverseRecOn with
  | nil => exact le_rfl
  | append_singleton ds d ih =>
    rw [keepAll_snoc, length_append, keep]
    grind

variable {ds : List Digit} {m : Nat}

/-- A digit is dropped only when the significand is large. -/
theorem keepAll_large (h : (keepAll ds).kept < ds.length) : ullongMax / 10 < (keepAll ds).significand := by
  induction ds using List.reverseRecOn with
  | nil => exact absurd h (lt_irrefl 0)
  | append_singleton ds d ih =>
    rw [keepAll_snoc, keep] at h ⊢
    by_cases hroom : (keepAll ds).significand ≤ ullongMax / 10
    · rw [if_pos hroom, length_append] at h
      exact absurd hroom (not_le.2 (ih (Nat.lt_of_succ_lt_succ h)))
    · rw [if_neg hroom]
      exact not_le.1 hroom

/-- From then on nothing is taken in. -/
theorem keepAll_append (h : ullongMax / 10 < (keepAll ds).significand) (es : List Digit) :
    (keepAll (ds ++ es)).kept = (keepAll ds).kept ∧ (keepAll (ds ++ es)).significand = (keepAll ds).significand := by
  induction es using List.reverseRecOn with
  | nil => rw [append_nil]; exact ⟨rfl, rfl⟩
  | append_singleton es d ih =>
    rw [← append_assoc, keepAll_snoc, keep, if_neg (by rw [ih.2]; exact not_le.2 h)]
    exact ih

theorem int_ok {z : Int} (h : FitsInt z) : int z = .ok z := if_pos h

theorem int_error {z : Int} (h : ¬ FitsInt z) : int z = .error .overflow := if_neg h

theorem integerDigits_eq (ds : List Digit) :
    ds.foldlM (fun s d => integerDigit s (digitByte d)) ⟨0, 0, false⟩ =
      (int (ds.length - (keepAll ds).kept)).map fun pow10 =>
        ⟨(keepAll ds).significand, pow10, (keepAll ds).imprecise⟩ := by
  induction ds using List.reverseRecOn with
  | nil => rfl
  | append_singleton ds d ih =>
    have hle := keepAll_kept_le ds
    rw [foldlM_snoc, ih, keepAll_snoc, length_append, length_singleton]
    by_cases hfits : FitsInt (ds.length - (keepAll ds).kept)
    · rw [int_ok hfits]
      show integerDigit _ _ = _
      rw [integerDigit, keep, digit_digitByte, digitByte_bne_zero]
      by_cases hroom : (keepAll ds).significand ≤ ullongMax / 10
      · have hsame : (↑(ds.length + 1) : Int) - ↑((keepAll ds).kept + 1) = ds.length - (keepAll ds).kept := by
          push_cast
          ring
        rw [if_pos hroom, if_pos hroom, hsame, int_ok hfits]
        rfl
      · have hnext : (↑(ds.length + 1) : Int) - ↑(keepAll ds).kept = ds.length - (keepAll ds).kept + 1 := by
          push_cast
          ring
        rw [if_neg hroom, if_neg hroom, hnext]
        cases int (↑ds.length - ↑(keepAll ds).kept + 1) <;> rfl
    · -- the power of ten has left its range upwards, where it stays
      have hover : ¬ FitsInt (↑(ds.length + 1) - ↑(keep (keepAll ds) d).kept) := by
        simp only [FitsInt, keep] at hfits ⊢
        split <;> push_cast <;> omega
      rw [int_error hfits, int_error hover]
      rfl

theorem fractionDigits_eq (is fs : List Digit) (h : FitsInt (is.length - (keepAll is).kept)) :
    fs.foldlM (fun s d => fractionDigit s (digitByte d))
        ⟨(keepAll is).significand, is.length - (keepAll is).kept, (keepAll is).imprecise⟩ =
      (int (is.length - (keepAll (is ++ fs)).kept)).map fun pow10 =>
        ⟨(keepAll (is ++ fs)).significand, pow10, (keepAll (is ++ fs)).imprecise⟩ := by
  have hmono : ∀ fs, (keepAll is).kept ≤ (keepAll (is ++ fs)).kept := by
    intro fs
    induction fs using List.reverseRecOn with
    | nil => rw [append_nil]
    | append_singleton fs d ih =>
      rw [← append_assoc, keepAll_snoc, keep]
      grind
  induction fs using List.reverseRecOn with
  | nil =>
    rw [append_nil, int_ok h]
    rfl
  | append_singleton fs d ih =>
    have hle := hmono fs
    rw [foldlM_snoc, ih, ← append_assoc, keepAll_snoc]
    by_cases hfits : FitsInt (is.length - (keepAll (is ++ fs)).kept)
    · rw [int_ok hfits]
      show fractionDigit _ _ = _
      rw [fractionDigit, keep, digit_digitByte, digitByte_bne_zero]
      by_cases hroom : (keepAll (is ++ fs)).significand ≤ ullongMax / 10
      · have hnext : (is.length : Int) - ↑((keepAll (is ++ fs)).kept + 1) =
            is.length - (keepAll (is ++ fs)).kept - 1 := by
          push_cast
          ring
        rw [if_pos hroom, if_pos hroom, hnext]
        cases int (↑is.length - ↑(keepAll (is ++ fs)).kept - 1) <;> rfl
      · rw [if_neg hroom, if_neg hroom, int_ok hfits]
        rfl
    · -- the power of ten has left its range downwards
      have hover : ¬ FitsInt (↑is.length - ↑(keep (keepAll (is ++ fs)) d).kept) := by
        simp only [FitsInt, keep] at h hfits ⊢
        split <;> push_cast <;> omega
      rw [int_error hfits, int_error hover]
      rfl

def exponentLimit : Nat := 2147483640

theorem exponentDigits_eq (ds : List Digit) :
    ds.foldlM (fun s d => exponentDigit s (digitByte d)) 0 =
      if value ds < exponentLimit then .ok (value ds : Int) else .error (.error "exponent outside valid range") := by
  induction ds using List.reverseRecOn with
  | nil => rfl
  | append_singleton ds d ih =>
    have hlimit : value ds * 10 + d < exponentLimit ↔ value ds < 214748364 := by
      rw [exponentLimit]
      omega
    rw [foldlM_snoc, ih, value_snoc]
    by_cases hlt : value ds < exponentLimit
    · rw [if_pos hlt, Except.ok_bind, exponentDigit, digit_digitByte]
      by_cases hroom : value ds < 214748364
      · rw [if_neg (by omega), if_pos (hlimit.2 hroom), int_ok ⟨by omega, by omega⟩]
        rfl
      · rw [if_pos (by omega), if_neg (fun h => hroom (hlimit.1 h))]
    · have hstay : ¬ value ds * 10 + d < exponentLimit := by omega
      rw [if_neg hlt, if_neg hstay]
      rfl

/-! ## The parts of a literal -/

variable (lit : Literal)

theorem startsDigit_exponentText : startsDigit lit.exponentText = false := by
  rw [Literal.exponentText]
  cases lit.exponent with
  | none => rfl
  | some e =>
    obtain ⟨upper, sign, digits, hne⟩ := e
    cases upper <;> rfl

theorem startsDigit_fractionText : startsDigit (lit.fractionText ++ lit.exponentText) = false := by
  rw [Literal.fractionText]
  cases lit.fraction with
  | nil => exact startsDigit_exponentText lit
  | cons d ds => rfl

theorem startsDigit_digitBytes (h : ds ≠ []) (rest : List UInt8) : startsDigit (digitBytes ds ++ rest) = true := by
  cases ds with
  | nil => exact absurd rfl h
  | cons d ds => exact isDigit_digitByte d

theorem leadingMinus_text : leadingMinus lit.text =
    (lit.negative, digitBytes lit.integer ++ (lit.fractionText ++ lit.exponentText)) := by
  obtain ⟨negative, integer, fraction, exponent, hne, hlead⟩ := lit
  cases negative with
  | true => rfl
  | false =>
    cases integer with
    | nil => exact absurd rfl hne
    | cons d ds => exact if_neg (digitByte_ne (by decide) d)

theorem integerPart_eq {rest : List UInt8} (h : startsDigit rest = false) :
    integerPart (digitBytes lit.integer ++ rest) =
      (int (lit.integer.length - (keepAll lit.integer).kept)).map fun pow10 =>
        (⟨(keepAll lit.integer).significand, pow10, (keepAll lit.integer).imprecise⟩, rest) := by
  obtain ⟨negative, integer, fraction, exponent, hne, hlead⟩ := lit
  cases integer with
  | nil => exact absurd rfl hne
  | cons d ds =>
    by_cases hd : d = 0
    · -- a zero stands alone
      subst hd
      cases hlead rfl
      show (if startsDigit rest then _ else _) = (int (↑(1 : Nat) - ↑(keepAll [0]).kept)).map _
      rw [h]
      rfl
    have hbyte : digitByte d ≠ byte '0' := by
      have hbne := digitByte_bne_zero d
      simp_all
    show integerPart (digitByte d :: (digitBytes ds ++ rest)) = _
    rw [integerPart, if_neg hbyte, if_pos (isDigit_digitByte d)]
    have hscan := scanDigits_digitBytes integerDigit (d :: ds) h ⟨0, 0, false⟩
    rw [integerDigits_eq] at hscan
    refine hscan.trans ?_
    cases int (↑(d :: ds).length - ↑(keepAll (d :: ds)).kept) <;> rfl

/-- The power of ten before the exponent is read. -/
def Literal.shift : Int := lit.integer.length - (keepAll lit.digits).kept

theorem fractionPart_eq (h : FitsInt (lit.integer.length - (keepAll lit.integer).kept)) :
    fractionPart ⟨(keepAll lit.integer).significand, lit.integer.length - (keepAll lit.integer).kept,
        (keepAll lit.integer).imprecise⟩ (lit.fractionText ++ lit.exponentText) =
      (int lit.shift).map fun pow10 =>
        (⟨(keepAll lit.digits).significand, pow10, (keepAll lit.digits).imprecise⟩, lit.exponentText) := by
  rw [Literal.fractionText, Literal.shift, Literal.digits]
  cases hf : lit.fraction with
  | nil =>
    rw [append_nil, int_ok h, Literal.exponentText]
    cases lit.exponent with
    | none => rfl
    | some e =>
      obtain ⟨upper, sign, digits, hne⟩ := e
      cases upper <;> rfl
  | cons d ds =>
    show (if startsDigit (digitBytes (d :: ds) ++ lit.exponentText) then
      scanDigits fractionDigit _ (digitBytes (d :: ds) ++ lit.exponentText) else _) = _
    rw [startsDigit_digitBytes (cons_ne_nil d ds), if_pos rfl,
      scanDigits_digitBytes fractionDigit _ (startsDigit_exponentText lit), fractionDigits_eq _ _ h]
    cases int (↑lit.integer.length - ↑(keepAll (lit.integer ++ d :: ds)).kept) <;> rfl

def Literal.ExponentRead : Prop := ∀ e ∈ lit.exponent, Decimal.value e.digits < exponentLimit

theorem exponentSign_text (e : Exponent) : ∃ c, (c = byte 'e' ∨ c = byte 'E') ∧ ∃ cp, e.text = c :: cp ∧
    exponentSign cp = (decide (e.sign = some true), digitBytes e.digits) := by
  obtain ⟨upper, sign, digits, hne⟩ := e
  refine ⟨byte (if upper then 'E' else 'e'), by cases upper <;> decide, _, rfl, ?_⟩
  match sign with
  | some true => rfl
  | some false => rfl
  | none =>
    cases digits with
    | nil => exact absurd rfl hne
    | cons d ds =>
      show exponentSign (digitByte d :: digitBytes ds) = _
      rw [exponentSign, if_neg (digitByte_ne (by decide) d), if_neg (digitByte_ne (by decide) d)]
      rfl

theorem exponentPart_text (s : Scan) (e : Exponent) : exponentPart s e.text =
    if value e.digits < exponentLimit then (int (s.pow10 + e.toInt)).map fun pow10 => ({ s with pow10 := pow10 }, [])
    else .error (.error "exponent outside valid range") := by
  obtain ⟨c, hc, cp, htext, hsign⟩ := exponentSign_text e
  have hstart := startsDigit_digitBytes e.digits_ne []
  have hscan := scanDigits_digitBytes exponentDigit e.digits (show startsDigit [] = false from rfl) 0
  rw [append_nil] at hstart hscan
  rw [htext, exponentPart, if_pos hc, hsign]
  rw [if_pos hstart, hscan, exponentDigits_eq]
  split
  · show (int _ >>= _) = _
    have hpow : (if decide (e.sign = some true) = true then s.pow10 - ↑(value e.digits)
        else s.pow10 + ↑(value e.digits)) = s.pow10 + e.toInt := by
      simp only [Exponent.toInt, decide_eq_true_eq]
      split <;> ring
    rw [hpow]
    cases int (s.pow10 + e.toInt) <;> rfl
  · rfl

theorem exponentPart_read (s : Scan) (hs : FitsInt s.pow10) (h : lit.ExponentRead) :
    exponentPart s lit.exponentText = (int (s.pow10 + lit.power)).map fun pow10 => ({ s with pow10 := pow10 }, []) := by
  rw [Literal.exponentText, Literal.power]
  cases hexp : lit.exponent with
  | none =>
    rw [add_zero, int_ok hs]
    rfl
  | some e =>
    rw [exponentPart_text, if_pos (h e hexp)]

theorem exponentPart_refused (s : Scan) (h : ¬ lit.ExponentRead) :
    exponentPart s lit.exponentText = .error (.error "exponent outside valid range") := by
  rw [Literal.ExponentRead] at h
  push Not at h
  obtain ⟨e, he, hlarge⟩ := h
  rw [Literal.exponentText, show lit.exponent = some e from he]
  rw [exponentPart_text, if_neg (not_lt.2 hlarge)]

/-! ## A literal -/

/-- The variables after the exponent is read. -/
def Literal.scan : Scan :=
  ⟨(keepAll lit.digits).significand, lit.shift + lit.power, (keepAll lit.digits).imprecise⟩

/-- Digits are dropped before the point or taken in after it, never both. -/
theorem Literal.fitsInt_of_shift (h : FitsInt lit.shift) :
    FitsInt (lit.integer.length - (keepAll lit.integer).kept) := by
  rcases (keepAll_kept_le lit.integer).eq_or_lt with heq | hlt
  · rw [heq, sub_self]
    decide
  · have hsame := (keepAll_append (keepAll_large hlt) lit.fraction).1
    rw [Literal.shift, Literal.digits, hsame] at h
    exact h

section Lex

variable {δ : Type} (D : Doubles δ) (lit : Literal)

/-- The power of ten stays in range. -/
def Literal.PowersFit : Prop := FitsInt lit.shift ∧ (lit.ExponentRead → FitsInt (lit.shift + lit.power))

theorem jsonLexNumber_of_shift (h : FitsInt lit.shift) : jsonLexNumber D lit.text =
    (exponentPart ⟨(keepAll lit.digits).significand, lit.shift, (keepAll lit.digits).imprecise⟩ lit.exponentText >>=
      fun r => if r.2 ≠ [] then .error (.error "syntax error in number")
        else finishNumber D lit.text lit.negative r.1) := by
  have hint := lit.fitsInt_of_shift h
  rw [jsonLexNumber, leadingMinus_text, integerPart_eq lit (startsDigit_fractionText lit), int_ok hint]
  show (fractionPart _ _ >>= _) = _
  rw [fractionPart_eq lit hint, int_ok h]
  rfl

theorem jsonLexNumber_overflow (h : ¬ lit.PowersFit) : jsonLexNumber D lit.text = .error .overflow := by
  by_cases hshift : FitsInt lit.shift
  · obtain ⟨hread, hpow⟩ : lit.ExponentRead ∧ ¬ FitsInt (lit.shift + lit.power) := by
      by_contra hc
      exact h ⟨hshift, fun hread => by_contra fun hp => hc ⟨hread, hp⟩⟩
    rw [jsonLexNumber_of_shift D lit hshift, exponentPart_read lit _ hshift hread]
    rw [int_error hpow]
    rfl
  · rw [jsonLexNumber, leadingMinus_text, integerPart_eq lit (startsDigit_fractionText lit)]
    by_cases hint : FitsInt (lit.integer.length - (keepAll lit.integer).kept)
    · rw [int_ok hint]
      show (fractionPart _ _ >>= _) = _
      rw [fractionPart_eq lit hint, int_error hshift]
      rfl
    · rw [int_error hint]
      rfl

theorem jsonLexNumber_refused (h : FitsInt lit.shift) (hread : ¬ lit.ExponentRead) :
    jsonLexNumber D lit.text = .error (.error "exponent outside valid range") := by
  rw [jsonLexNumber_of_shift D lit h, exponentPart_refused lit _ hread]
  rfl

theorem jsonLexNumber_eq (h : FitsInt lit.shift) (hread : lit.ExponentRead) (hpow : FitsInt (lit.shift + lit.power)) :
    jsonLexNumber D lit.text = finishNumber D lit.text lit.negative lit.scan := by
  rw [jsonLexNumber_of_shift D lit h, exponentPart_read lit _ h hread]
  rw [int_ok hpow]
  rfl

end Lex

/-! ## The significand -/

/-- No leading digits spell 2^64 or one of the three numbers after it. -/
def Literal.NoWrap (lit : Literal) : Prop :=
  ∀ ds, ds <+: lit.digits → Decimal.value ds < 2 ^ 64 ∨ 2 ^ 64 + 4 ≤ Decimal.value ds

/-- The significand is the value of the digits taken in, and the flag tells whether those after them are zeros. -/
structure Kept.Of (k : Kept) (ds : List Digit) : Prop where
  significand : k.significand = value (ds.take k.kept)
  imprecise : k.imprecise = decide (value (ds.drop k.kept) ≠ 0)

theorem keepAll_of (h : ∀ es, es <+: ds → value es < 2 ^ 64 ∨ 2 ^ 64 + 4 ≤ value es) : (keepAll ds).Of ds := by
  induction ds using List.reverseRecOn with
  | nil => exact ⟨rfl, rfl⟩
  | append_singleton ds d ih =>
    have hof := ih fun es hes => h es (hes.trans (prefix_append ds [d]))
    have hle := keepAll_kept_le ds
    rw [keepAll_snoc, keep]
    by_cases hroom : (keepAll ds).significand ≤ ullongMax / 10
    · -- all digits so far were taken in, and the next one fits
      have hall : (keepAll ds).kept = ds.length :=
        hle.antisymm (not_lt.1 fun hlt => absurd hroom (not_le.2 (keepAll_large hlt)))
      have hsig : (keepAll ds).significand = value ds := by
        rw [hof.significand, hall, take_length]
      have himp : (keepAll ds).imprecise = false := by
        rw [hof.imprecise, hall, drop_length]
        rfl
      have hfits : value (ds ++ [d]) < 2 ^ 64 := by
        rcases h _ (prefix_refl _) with hlt | hge
        · exact hlt
        · rw [value_snoc] at hge
          rw [ullongMax] at hroom
          omega
      rw [if_pos hroom, himp, hall]
      refine ⟨?_, ?_⟩
      · rw [take_of_length_le (by simp), hsig, ← value_snoc, Nat.mod_eq_of_lt hfits]
      · rw [drop_of_length_le (by simp)]
        rfl
    · rw [if_neg hroom]
      refine ⟨?_, ?_⟩
      · rw [take_append_of_le_length hle, hof.significand]
      · rw [drop_append_of_le_length hle, value_snoc, hof.imprecise]
        simp

/-! ## Bringing the power of ten to zero -/

theorem scaleUp_spec : ∀ n s, s < 2 ^ 64 →
    (scaleUp n s).2 * 10 ^ (scaleUp n s).1 = s * 10 ^ n ∧
      ((scaleUp n s).1 = 0 ∨ ullongMax / 10 ≤ (scaleUp n s).2)
  | 0, _, _ => ⟨rfl, .inl rfl⟩
  | n + 1, s, hs => by
    rw [scaleUp]
    by_cases hroom : s < ullongMax / 10
    · have hten : s * 10 < 2 ^ 64 := by
        rw [ullongMax] at hroom
        omega
      rw [if_pos hroom, Nat.mod_eq_of_lt hten]
      obtain ⟨hval, hend⟩ := scaleUp_spec n (s * 10) hten
      exact ⟨by rw [hval, pow_succ]; ring, hend⟩
    · grind

theorem scaleDown_spec : ∀ n s, s * 10 ^ (scaleDown n s).1 = (scaleDown n s).2 * 10 ^ n ∧
    ((scaleDown n s).1 = 0 ∨ ¬ 10 ∣ (scaleDown n s).2)
  | 0, _ => ⟨rfl, .inl rfl⟩
  | n + 1, s => by
    rw [scaleDown]
    by_cases hten : s % 10 = 0
    · rw [if_pos hten]
      obtain ⟨hval, hend⟩ := scaleDown_spec n (s / 10)
      refine ⟨?_, hend⟩
      have hs : s = s / 10 * 10 := by omega
      calc s * 10 ^ (scaleDown n (s / 10)).1
          = (s / 10 * 10 ^ (scaleDown n (s / 10)).1) * 10 := by
            nth_rewrite 1 [hs]
            ring
        _ = (scaleDown n (s / 10)).2 * 10 ^ (n + 1) := by
            rw [hval]
            ring
    · grind

/-- The power of ten is brought to zero exactly when the number is an integer that is not too large. -/
theorem rescale_eq_iff {s : Nat} (p : Int) (hs : s < 2 ^ 64) (hm : m ≤ 2 ^ 63) :
    rescale p s = (0, m) ↔ (s : ℚ) * 10 ^ p = m := by
  cases p with
  | ofNat n =>
    obtain ⟨hval, hend⟩ := scaleUp_spec n s hs
    have hcast : (s : ℚ) * 10 ^ (Int.ofNat n) = m ↔ s * 10 ^ n = m := by
      rw [Int.ofNat_eq_natCast]
      exact_mod_cast Iff.rfl
    rw [rescale, hcast, ← hval]
    constructor
    · simp_all
    · intro h
      rcases hend with hzero | hlarge
      · grind
      have hpow : (scaleUp n s).1 = 0 := by
        by_contra hne
        have hten : 10 ≤ 10 ^ (scaleUp n s).1 := Nat.le_self_pow hne 10
        have hge := Nat.mul_le_mul hlarge hten
        rw [ullongMax] at hge
        omega
      grind
  | negSucc n =>
    obtain ⟨hval, hend⟩ := scaleDown_spec (n + 1) s
    have hcast : (s : ℚ) * 10 ^ (Int.negSucc n) = m ↔ s = m * 10 ^ (n + 1) := by
      rw [zpow_negSucc, mul_inv_eq_iff_eq_mul₀ (by positivity)]
      exact_mod_cast Iff.rfl
    rw [rescale, hcast]
    constructor
    · intro h
      simp_all
    · intro h
      rw [h, mul_right_comm] at hval
      have hsig := Nat.eq_of_mul_eq_mul_right (by positivity) hval
      have hzero : (scaleDown (n + 1) (m * 10 ^ (n + 1))).1 = 0 := by
        rw [← h]
        rw [← h] at hsig
        rcases hend with hzero | hdvd
        · exact hzero
        · by_contra hne
          refine hdvd ?_
          rw [← hsig]
          exact (dvd_pow_self 10 hne).mul_left m
      grind

/-- Where something else than zeros was dropped, the number is too large or not an integer. -/
theorem not_integer_of_dropped {t r n : Nat} (p : Int) (ht : ullongMax / 10 < t) (hr : r ≠ 0) (hlt : r < 10 ^ n)
    (hm : m ≤ 2 ^ 63) : ((t * 10 ^ n + r : Nat) : ℚ) * 10 ^ p ≠ m := by
  rw [ullongMax] at ht
  have hn : n ≠ 0 := by
    rintro rfl
    omega
  cases p with
  | ofNat k =>
    rw [Int.ofNat_eq_natCast]
    intro h
    have hnat : (t * 10 ^ n + r) * 10 ^ k = m := by exact_mod_cast h
    have hten : 10 ≤ 10 ^ n := Nat.le_self_pow hn 10
    have hlarge := Nat.mul_le_mul (show 1844674407370955161 ≤ t by omega) hten
    have hle := Nat.le_mul_of_pos_right (t * 10 ^ n + r) (show 0 < 10 ^ k by positivity)
    omega
  | negSucc k =>
    rw [zpow_negSucc, Ne, mul_inv_eq_iff_eq_mul₀ (by positivity)]
    intro h
    have hnat : t * 10 ^ n + r = m * 10 ^ (k + 1) := by exact_mod_cast h
    rcases Nat.lt_or_ge (k + 1) n with hkn | hnk
    · -- the integer would have the digits taken in and at least one more
      have hsplit : 10 ^ n = 10 ^ (n - (k + 1)) * 10 ^ (k + 1) := by rw [← pow_add, Nat.sub_add_cancel hkn.le]
      have hten : 10 ≤ 10 ^ (n - (k + 1)) := Nat.le_self_pow (by omega) 10
      have hlarge := Nat.mul_le_mul (show 1844674407370955161 ≤ t by omega) hten
      have hle : t * 10 ^ (n - (k + 1)) ≤ m := by
        refine Nat.le_of_mul_le_mul_right ?_ (show 0 < 10 ^ (k + 1) by positivity)
        rw [mul_assoc, ← hsplit, ← hnat]
        exact Nat.le_add_right _ _
      omega
    · -- the dropped digits would be zeros
      have hdvd : 10 ^ n ∣ t * 10 ^ n + r := by
        rw [hnat]
        exact (pow_dvd_pow 10 hnk).mul_left m
      have hr' : 10 ^ n ∣ r := (Nat.dvd_add_right (Dvd.intro_left t rfl)).1 hdvd
      exact absurd (Nat.le_of_dvd (Nat.pos_of_ne_zero hr) hr') (not_le.2 hlt)

/-! ## The token -/

theorem toInteger_eq {negative : Bool} (h : m ≤ integerBound negative) :
    toInteger negative m = if negative then -(m : Int) else m := by
  rw [toInteger]
  cases negative with
  | true =>
    have hm : m ≤ 2 ^ 63 := h
    rw [if_pos rfl, if_pos rfl]
    have hword : -BitVec.ofNat 64 m = BitVec.ofInt 64 (-(m : Int)) := by
      rw [BitVec.ofInt_neg, BitVec.ofInt_natCast]
    rw [hword, SignedWord.toInt_ofInt ⟨by simp only [SignedWord.min]; omega, by simp only [SignedWord.max]; omega⟩]
  | false =>
    have hm : m ≤ 2 ^ 63 - 1 := h
    rw [if_neg Bool.false_ne_true, if_neg Bool.false_ne_true, ← BitVec.ofInt_natCast,
      SignedWord.toInt_ofInt ⟨by simp only [SignedWord.min]; omega, by simp only [SignedWord.max]; omega⟩]

theorem integerBound_le (negative : Bool) : integerBound negative ≤ 2 ^ 63 := by
  cases negative <;> decide

theorem finishNumber_ne_overflow {δ : Type} (D : Doubles δ) (buffer : List UInt8) (negative : Bool) (s : Scan) :
    finishNumber D buffer negative s ≠ .error .overflow := by
  rw [finishNumber]
  grind

theorem finishNumber_integer_iff {δ : Type} (D : Doubles δ) (buffer : List UInt8) (negative : Bool) (s : Scan) (v : Int) :
    finishNumber D buffer negative s = .ok (.integer v) ↔
      s.significand = 0 ∧ v = 0 ∨ s.significand ≠ 0 ∧ s.imprecise = false ∧
        ∃ m ≤ integerBound negative, rescale s.pow10 s.significand = (0, m) ∧ v = if negative then -(m : Int) else m := by
  rw [finishNumber]
  by_cases hzero : s.significand = 0
  · simp [hzero, @eq_comm _ _ v]
  rw [if_neg hzero]
  rcases rescale s.pow10 s.significand with ⟨pow10, significand⟩
  dsimp only
  by_cases hint : (!s.imprecise) = true ∧ pow10 = 0 ∧ significand ≤ integerBound negative
  · obtain ⟨himp, rfl, hle⟩ := hint
    rw [toInteger_eq hle]
    grind
  grind

/-- The value is a 64-bit integer when without its sign it is a natural number within the bound. -/
theorem Literal.value_eq_iff (lit : Literal) (v : Int) : lit.value = v ∧ SignedWord.Fits v ↔
    ∃ m ≤ integerBound lit.negative,
      (Decimal.value lit.digits * (10 : ℚ) ^ (lit.power - lit.fraction.length)) = (m : Nat) ∧
        v = if lit.negative then -(m : Int) else m := by
  have hnonneg : 0 ≤ Decimal.value lit.digits * (10 : ℚ) ^ (lit.power - lit.fraction.length) := by positivity
  rw [Literal.value]
  generalize Decimal.value lit.digits * (10 : ℚ) ^ (lit.power - lit.fraction.length) = x at hnonneg
  have hnat : ∀ w : Int, x = w → ∃ m : Nat, x = m ∧ w = m := by
    rintro w rfl
    have hw : 0 ≤ w := by exact_mod_cast hnonneg
    exact ⟨w.toNat, by exact_mod_cast (Int.toNat_of_nonneg hw).symm, (Int.toNat_of_nonneg hw).symm⟩
  simp only [SignedWord.Fits, SignedWord.min, SignedWord.max, integerBound]
  cases lit.negative with
  | true =>
    simp only [if_true]
    constructor
    · rintro ⟨hv, hlo, _⟩
      obtain ⟨m, hx, hm⟩ := hnat (-v) (by push_cast; linarith)
      exact ⟨m, by omega, hx, by omega⟩
    · simp_all
  | false =>
    simp only [Bool.false_eq_true, if_false, one_mul]
    constructor
    · grind
    · rintro ⟨m, hm, hx, rfl⟩
      exact ⟨by rw [hx]; rfl, by omega, by omega⟩

theorem Literal.value_digits_eq (lit : Literal) (k : Nat) : Decimal.value lit.digits =
    Decimal.value (lit.digits.take k) * 10 ^ (lit.digits.length - k) + Decimal.value (lit.digits.drop k) := by
  rw [← length_drop, ← value_append, take_append_drop]

theorem keepAll_lt (ds : List Digit) : (keepAll ds).significand < 2 ^ 64 := by
  induction ds using List.reverseRecOn with
  | nil => decide
  | append_singleton ds d ih =>
    rw [keepAll_snoc, keep]
    grind

/-- The variables stand for the value of the literal. -/
theorem Literal.scan_integer_iff {lit : Literal} (h : lit.NoWrap) (m : Nat) (hm : m ≤ 2 ^ 63) :
    Decimal.value lit.digits * (10 : ℚ) ^ (lit.power - lit.fraction.length) = m ↔
      lit.scan.significand = 0 ∧ m = 0 ∨ lit.scan.significand ≠ 0 ∧ lit.scan.imprecise = false ∧
        rescale lit.scan.pow10 lit.scan.significand = (0, m) := by
  have hof := keepAll_of h
  have hle := keepAll_kept_le lit.digits
  have hsplit := lit.value_digits_eq (keepAll lit.digits).kept
  rw [← hof.significand] at hsplit
  by_cases himp : (keepAll lit.digits).imprecise = true
  · -- something was dropped
    have hdrop : Decimal.value (lit.digits.drop (keepAll lit.digits).kept) ≠ 0 := by
      rw [hof.imprecise] at himp
      exact of_decide_eq_true himp
    have hlt : (keepAll lit.digits).kept < lit.digits.length := by
      by_contra hge
      rw [drop_of_length_le (not_lt.1 hge)] at hdrop
      exact hdrop rfl
    have hlarge := keepAll_large hlt
    refine iff_of_false ?_ ?_
    · rw [hsplit]
      refine not_integer_of_dropped _ hlarge hdrop ?_ hm
      rw [← length_drop]
      exact value_lt _
    · rintro (⟨hzero, _⟩ | ⟨_, hno, _⟩)
      · rw [show lit.scan.significand = (keepAll lit.digits).significand from rfl] at hzero
        omega
      · exact absurd (himp.symm.trans hno) (by decide)
  · have hfalse : lit.scan.imprecise = false := Bool.eq_false_iff.2 himp
    have hdrop : Decimal.value (lit.digits.drop (keepAll lit.digits).kept) = 0 := by
      by_contra hne
      rw [hof.imprecise] at himp
      exact himp (decide_eq_true hne)
    have hlen : lit.digits.length = lit.integer.length + lit.fraction.length := length_append
    have hvalue : Decimal.value lit.digits * (10 : ℚ) ^ (lit.power - lit.fraction.length) =
        lit.scan.significand * (10 : ℚ) ^ lit.scan.pow10 := by
      have hpow : lit.scan.pow10 =
          ((lit.digits.length - (keepAll lit.digits).kept : Nat) : Int) + (lit.power - lit.fraction.length) := by
        show lit.shift + lit.power = _
        rw [Literal.shift, Nat.cast_sub hle, hlen]
        push_cast
        ring
      rw [hsplit, hdrop, hpow, zpow_add₀ (by norm_num), zpow_natCast]
      push_cast
      show _ = ((keepAll lit.digits).significand : ℚ) * _
      ring
    have hrescale := rescale_eq_iff lit.scan.pow10 (show lit.scan.significand < 2 ^ 64 from keepAll_lt lit.digits) hm
    rw [hvalue]
    by_cases hzero : lit.scan.significand = 0
    · rw [hzero, Nat.cast_zero, zero_mul]
      constructor
      · intro h
        exact .inl ⟨rfl, by exact_mod_cast h.symm⟩
      · simp_all
    · simp [*]

/-! ## Exact reading -/

/-- The number of digits the significand takes in: those before which it is at most `ULLONG_MAX / 10`. -/
def Literal.taken (lit : Literal) : Nat :=
  ((List.range lit.digits.length).filter fun k => Decimal.value (lit.digits.take k) ≤ ullongMax / 10).length

/-- The power of ten stays an `int`, before and after the exponent is added, and an exponent that is not read is not
that of an integer. -/
structure Literal.InRange (lit : Literal) : Prop where
  shift : FitsInt (lit.integer.length - lit.taken)
  power : lit.ExponentRead → FitsInt (lit.integer.length - lit.taken + lit.power)
  exponent : ¬ lit.ExponentRead → ∀ v : Int, lit.value = v → ¬ SignedWord.Fits v

theorem keepAll_kept (h : ∀ es, es <+: ds → value es < 2 ^ 64 ∨ 2 ^ 64 + 4 ≤ value es) :
    (keepAll ds).kept = ((List.range ds.length).filter fun k => value (ds.take k) ≤ ullongMax / 10).length := by
  induction ds using List.reverseRecOn with
  | nil => rfl
  | append_singleton ds d ih =>
    have hprefix : ∀ es, es <+: ds → value es < 2 ^ 64 ∨ 2 ^ 64 + 4 ≤ value es :=
      fun es hes => h es (hes.trans (prefix_append ds [d]))
    have hof := keepAll_of hprefix
    have hroom : (keepAll ds).significand ≤ ullongMax / 10 ↔ value ds ≤ ullongMax / 10 := by
      rcases (keepAll_kept_le ds).eq_or_lt with heq | hlt
      · rw [hof.significand, heq, take_length]
      · have hlarge := keepAll_large hlt
        have hle := value_le_append (ds.take (keepAll ds).kept) (ds.drop (keepAll ds).kept)
        rw [← hof.significand, take_append_drop] at hle
        omega
    have htake : ∀ k ∈ List.range ds.length, decide (value ((ds ++ [d]).take k) ≤ ullongMax / 10) =
        decide (value (ds.take k) ≤ ullongMax / 10) := by
      grind
    rw [keepAll_snoc, keep, length_append, length_singleton, range_succ, filter_append,
      filter_congr htake, length_append, ← ih hprefix, filter_singleton, take_left]
    by_cases hle : value ds ≤ ullongMax / 10
    · simp [*]
    · simp [*]

/-- A literal that does not wrap the significand around is read exactly if and only if its powers of ten stay in range
and its exponent is read or is not that of a 64-bit integer. -/
theorem jsonLexNumber_exact_iff {δ : Type} (D : Doubles δ) (lit : Literal) (h : lit.NoWrap) :
    lit.ReadExactly D ↔ lit.InRange := by
  have hshift : lit.shift = lit.integer.length - lit.taken := by
    rw [Literal.shift, keepAll_kept h]
    rfl
  constructor
  · intro hexact
    have hfit : lit.PowersFit := by
      by_contra hno
      exact hexact.safe (jsonLexNumber_overflow D lit hno)
    rw [Literal.PowersFit, hshift] at hfit
    refine ⟨hfit.1, hfit.2, fun hread v hv hfits => ?_⟩
    have htoken := (hexact.exact v).2 ⟨hv, hfits⟩
    rw [jsonLexNumber_refused D lit (by rw [hshift]; exact hfit.1) hread] at htoken
    cases htoken
  · intro hin
    have hfit : FitsInt lit.shift := by
      rw [hshift]
      exact hin.shift
    by_cases hread : lit.ExponentRead
    · have heq := jsonLexNumber_eq D lit hfit hread (by rw [hshift]; exact hin.power hread)
      refine ⟨by rw [heq]; exact finishNumber_ne_overflow D _ _ _, fun v => ?_⟩
      rw [heq, finishNumber_integer_iff, lit.value_eq_iff]
      constructor
      · rintro (⟨hzero, rfl⟩ | ⟨hne, himp, m, hm, hres, rfl⟩)
        · exact ⟨0, Nat.zero_le _, (lit.scan_integer_iff h 0 (Nat.zero_le _)).2 (.inl ⟨hzero, rfl⟩), by simp⟩
        · exact ⟨m, hm, (lit.scan_integer_iff h m (hm.trans (integerBound_le _))).2 (.inr ⟨hne, himp, hres⟩), rfl⟩
      · rintro ⟨m, hm, hval, rfl⟩
        rcases (lit.scan_integer_iff h m (hm.trans (integerBound_le _))).1 hval with ⟨hzero, rfl⟩ | ⟨hne, himp, hres⟩
        · exact .inl ⟨hzero, by simp⟩
        · exact .inr ⟨hne, himp, m, hm, hres, rfl⟩
    · have heq := jsonLexNumber_refused D lit hfit hread
      refine ⟨fun hover => ?_, fun v => iff_of_false (fun htoken => ?_) fun hv => ?_⟩
      · cases heq.symm.trans hover
      · cases heq.symm.trans htoken
      · exact hin.exponent hread v hv.1 hv.2

/-- Numbers of type `double` that play no part. -/
def noDoubles : Doubles Unit := ⟨fun _ => some (), fun _ => Bool.false, ()⟩

/-- -12.50e2 -/
def moved : Literal := ⟨true, [1, 2], [5, 0], some ⟨false, none, [2], by decide⟩, by decide, by decide⟩

theorem jsonLexNumber_exact_moved : moved.NoWrap ∧ moved.ReadExactly noDoubles := by
  have hwrap : moved.NoWrap := by
    intro ds hds
    have hlen : ds.length ≤ 4 := hds.length_le
    exact .inl ((value_lt ds).trans_le ((Nat.pow_le_pow_right (by decide) hlen).trans (by decide)))
  have hread : moved.ExponentRead := by
    rintro e ⟨⟩
    decide
  refine ⟨hwrap, (jsonLexNumber_exact_iff noDoubles moved hwrap).2 ⟨?_, fun _ => ?_, fun hno => absurd hread hno⟩⟩
  · decide
  · decide

/-- 18446744073709551616 -/
def wrapped : Literal :=
  ⟨false, [1, 8, 4, 4, 6, 7, 4, 4, 0, 7, 3, 7, 0, 9, 5, 5, 1, 6, 1, 6], [], none, by decide, by decide⟩

/-- 0e2147483640 -/
def longZero : Literal :=
  ⟨false, [0], [], some ⟨false, none, [2, 1, 4, 7, 4, 8, 3, 6, 4, 0], by decide⟩, by decide, by decide⟩

/-- 0.0000000001e-2147483639 -/
def tiny : Literal :=
  ⟨false, [0], [0, 0, 0, 0, 0, 0, 0, 0, 0, 1],
    some ⟨false, some true, [2, 1, 4, 7, 4, 8, 3, 6, 3, 9], by decide⟩, by decide, by decide⟩

/-- 2^64 is read as 0, a zero with a large exponent as an error, and the sum of two negative powers overflows. -/
theorem literals_not_exact : ¬ wrapped.ReadExactly noDoubles ∧ ¬ longZero.ReadExactly noDoubles ∧
    ¬ tiny.ReadExactly noDoubles := by
  refine ⟨fun h => ?_, fun h => ?_, fun h => h.safe rfl⟩
  · have htoken : jsonLexNumber noDoubles wrapped.text = .ok (.integer 0) := rfl
    have hdigits : Decimal.value wrapped.digits = 18446744073709551616 := by decide
    have hvalue := ((h.exact 0).1 htoken).1
    rw [Literal.value, hdigits] at hvalue
    norm_num [wrapped, Literal.power] at hvalue
  · have htoken : jsonLexNumber noDoubles longZero.text = .error (.error "exponent outside valid range") := rfl
    have hdigits : Decimal.value longZero.digits = 0 := by decide
    have hvalue : longZero.value = (0 : Int) := by
      rw [Literal.value, hdigits]
      simp
    cases htoken.symm.trans ((h.exact _).2 ⟨hvalue, by decide⟩)

end LinkerOvs.Json
