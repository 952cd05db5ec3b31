/-
Which group messages the decoder cannot cope with. Reads and pulls are checked one function after the other; what is
left are buckets that go on behind the end of a group-mod, whose array of buckets is never compared with the message,
and a selection method in a message whose group type or command is only rejected later.
-/
import LinkerOvs.Ofp.GroupMod
import LinkerOvs.Ofp.GtpCodec

namespace LinkerOvs.Ofp.Group

open List
open Except (ok_bind bind_eq_ok not_fails_ok)

open Bytes (num read)

/-! ## Buffers -/

/-- The computation stops with something that is not an error for the sender. -/
abbrev Faults (x : Decode α) : Prop := x.Fails Stop.IsFault

theorem faults_bind {x : Decode α} {f : α → Decode β} :
    Faults (x >>= f) ↔ Faults x ∨ ∃ a, x = .ok a ∧ Faults (f a) := Except.fails_bind

/-- The computation ends with an error for the sender, or with a value that `Q` holds for. -/
abbrev Answers (Q : α → Prop) (x : Decode α) : Prop := x.Meets (fun s => ¬ s.IsFault) Q

section

variable {b : List UInt8} {n ofs : Nat} {e : Ofperr} {Q : α → Prop} {x : Decode α}

theorem answers_err : Answers Q (err e) := fun h => h e rfl

theorem answers_guard {c : Prop} [Decidable c] (h : ¬ c → Answers Q x) : Answers Q (if c then err e else x) := by
  split
  · exact answers_err
  · next hc => exact h hc

theorem Answers.not_faults (h : Answers Q x) : ¬ Faults x := by
  rintro ⟨s, rfl, hs⟩
  exact h hs

theorem Answers.of_ok {a : α} (h : Answers Q x) (hx : x = .ok a) : Q a := by
  rw [hx] at h
  exact h

@[simp] theorem not_faults_err : ¬ Faults (err e : Decode α) := answers_err (Q := fun _ => True) |>.not_faults

theorem faults_guard {c : Prop} [Decidable c] : Faults (if c then err e else x) ↔ ¬ c ∧ Faults x := by
  split
  next hc => exact iff_of_false not_faults_err fun h => h.1 hc
  next hc => exact (and_iff_right hc).symm

theorem faults_require {c : Prop} [Decidable c] : Faults (if c then x else err e) ↔ c ∧ Faults x := by
  rw [← ite_not, faults_guard, not_not]

theorem faults_bind_of_ok {f : α → Decode β} {P : Prop} (h : ∀ a, x = .ok a → (Faults (f a) ↔ P)) :
    Faults (x >>= f) ↔ Faults x ∨ x.Succeeds ∧ P := by
  rw [faults_bind, Except.Succeeds, ← exists_and_right]
  exact or_congr_right (exists_congr fun a => and_congr_right (h a))

theorem faults_bind_left {f : α → Decode β} (h : ∀ a, ¬ Faults (f a)) : Faults (x >>= f) ↔ Faults x := by
  rw [faults_bind_of_ok fun a _ => iff_of_false (h a) not_false, and_false, or_false]

theorem field_of_le (h : ofs + n ≤ b.length) : field b ofs n = .ok (num (read b ofs n)) := if_pos h

theorem pull_of_le (h : n ≤ b.length) : pull b n = .ok (b.take n, b.drop n) := if_pos h

theorem useConst_of_le (h : n ≤ b.length) : useConst b n = .ok (b.take n) := if_pos h

theorem tryPull_of_le (h : n ≤ b.length) : tryPull e b n = .ok (b.take n, b.drop n) := if_pos h

theorem tryPull_of_lt (h : b.length < n) : tryPull e b n = err e := if_neg (not_le.2 h)

theorem answers_field (h : ofs + n ≤ b.length) : Answers (fun _ => True) (field b ofs n) := by
  rw [field_of_le h]
  trivial

theorem answers_pull (h : n ≤ b.length) : Answers (fun r => r.1.length = n ∧ r.2 = b.drop n) (pull b n) := by
  rw [pull_of_le h]
  exact ⟨length_take_of_le h, rfl⟩

theorem answers_tryPull : Answers (fun r => r.1.length = n ∧ r.2 = b.drop n) (tryPull e b n) := by
  rw [tryPull]
  split
  · next h => exact ⟨length_take_of_le h, rfl⟩
  · exact answers_err

theorem field_take {m : Nat} (h : ofs + n ≤ m) (hm : m ≤ b.length) :
    field (b.take m) ofs n = .ok (num (read b ofs n)) := by
  rw [field_of_le (by rw [length_take]; omega), Bytes.read_take h]

end

/-! ## Properties -/

/-- The length of the property at the front of a buffer. -/
def propLen (msg : List UInt8) : Nat := num (read msg 2 2)

/-- The property at the front of a buffer lies in it. -/
def PropertyFits (msg : List UInt8) : Prop := 4 ≤ msg.length ∧ 4 ≤ propLen msg ∧ roundUp (propLen msg) 8 ≤ msg.length

instance (msg : List UInt8) : Decidable (PropertyFits msg) := inferInstanceAs (Decidable (_ ∧ _))

theorem le_roundUp (n : Nat) : n ≤ roundUp n 8 := by
  unfold roundUp
  omega

theorem ofputilPullProperty_eq (msg : List UInt8) : ofputilPullProperty msg =
      if PropertyFits msg then
        .ok (num (read msg 0 2), msg.take (propLen msg), msg.drop (roundUp (propLen msg) 8))
      else err .ofpbpcBadLen := by
  rw [ofputilPullProperty]
  by_cases hfour : msg.length < 4
  · rw [if_pos hfour, if_neg fun h => absurd h.1 (not_le.2 hfour)]
  rw [if_neg hfour, field_of_le (by omega), ok_bind]
  by_cases hbad : num (read msg 2 2) < 4 ∨ msg.length < roundUp (num (read msg 2 2)) 8
  · rw [if_pos hbad, if_neg]
    rintro ⟨-, hlen, hpad⟩
    unfold propLen at hlen hpad
    omega
  · have hle := le_roundUp (num (read msg 2 2))
    rw [if_neg hbad, if_pos ⟨by omega, by unfold propLen; omega, by unfold propLen; omega⟩, field_of_le (by omega),
      ok_bind, useConst_of_le (by omega), ok_bind, pull_of_le (by omega), ok_bind]
    rfl

theorem answers_ofputilPullProperty {msg : List UInt8} :
    Answers (fun r => propLen r.2.1 = r.2.1.length ∧ r.2.2.length < msg.length) (ofputilPullProperty msg) := by
  rw [ofputilPullProperty_eq]
  split
  · next hfits =>
    have hle := le_roundUp (propLen msg)
    obtain ⟨hfour, hlen, hpad⟩ := hfits
    refine ⟨?_, by dsimp only; rw [length_drop]; omega⟩
    rw [length_take_of_le (hle.trans hpad), propLen, Bytes.read_take hlen, propLen]
  · exact answers_err

theorem answers_parseOfp15GroupBucketProp {payload : List UInt8} {n : Nat} (hn : n ≤ 4) :
    Answers (fun _ => True) (parseOfp15GroupBucketProp payload n) :=
  answers_guard fun _ => answers_field (by omega)

theorem answers_bucketPropsLoop : ∀ {turns : Nat} {properties : List UInt8} {props : BucketProps},
    properties.length < turns → Answers (fun _ => True) (bucketPropsLoop turns properties props)
  | 0, _, _, h => absurd h (Nat.not_lt_zero _)
  | turns + 1, properties, props, h => by
    rw [bucketPropsLoop]
    split
    · trivial
    refine answers_ofputilPullProperty.bind fun ⟨type, payload, rest⟩ ⟨_, hshorter⟩ => ?_
    dsimp only at hshorter ⊢
    have hstep : ∀ {n : Nat} (hn : n ≤ 4) (next : Nat → BucketProps), Answers (fun _ => True)
        (parseOfp15GroupBucketProp payload n >>= fun x => bucketPropsLoop turns rest (next x)) := fun hn next =>
      (answers_parseOfp15GroupBucketProp hn).bind fun _ _ => answers_bucketPropsLoop (by omega)
    split
    · exact hstep (by omega) _
    split
    · exact hstep (by omega) _
    split
    · exact hstep (by omega) _
    · exact answers_err

/-! ## Buckets -/

theorem answers_ofputilPortFromOfp11 {port : Nat} : Answers (fun _ => True) (ofputilPortFromOfp11 port) := by
  rw [ofputilPortFromOfp11]
  split
  · trivial
  split
  · trivial
  · exact answers_err

section

variable {o : OtherActions} {v : OfpVersion} {msg : List UInt8}

theorem answers_pullActions {actionsLen : Nat} :
    Answers (fun r => actionsLen ≤ msg.length ∧ r.2 = msg.drop actionsLen) (pullActions o v msg actionsLen) := by
  rw [pullActions]
  split
  case h_2 => exact answers_err
  case h_1 hpull =>
    rw [ofpactsPullOpenflowActions] at hpull
    split at hpull
    case isTrue => cases hpull
    case isFalse hle =>
      obtain ⟨as, -, hpull⟩ := bind_eq_ok hpull
      obtain ⟨_, -, hpull⟩ := bind_eq_ok hpull
      cases hpull
      exact ⟨by omega, rfl⟩

variable {rest : List UInt8} {bucketsLength len groupType : Nat} {bucket : OfputilBucket}

/-- The length of the bucket at the front of a buffer, and of its actions. -/
def obLen (msg : List UInt8) : Nat := num (read msg 0 2)

def actionsLen (msg : List UInt8) : Nat := num (read msg 2 2)

/-! ### Buckets of OpenFlow 1.1 -/

theorem answers_pullOfp11Bucket {bucketId : Nat} :
    Answers (fun r => 16 ≤ r.2.1 ∧ r.2.1 ≤ bucketsLength) (pullOfp11Bucket o v msg bucketsLength bucketId) := by
  refine answers_guard fun _ => answers_tryPull.bind fun ⟨ob, msg₁⟩ ⟨hob, _⟩ => ?_
  dsimp only at hob
  refine (answers_field (by omega)).bind fun obLen _ => answers_guard fun hlen => ?_
  refine answers_pullActions.bind fun ⟨ofpacts, msg₂⟩ _ => ?_
  refine (answers_field (by omega)).bind fun weight _ => ?_
  refine (answers_field (by omega)).bind fun watchPort _ => ?_
  refine answers_ofputilPortFromOfp11.bind fun watchPort _ => ?_
  refine (answers_field (by omega)).bind fun watchGroup _ => ?_
  exact ⟨show 16 ≤ obLen by omega, show obLen ≤ bucketsLength by omega⟩

theorem answers_ofputilPullOfp11Buckets : ∀ {turns : Nat} {msg : List UInt8} {bucketsLength bucketId : Nat},
    bucketsLength < turns → Answers (fun _ => True) (ofputilPullOfp11Buckets o v turns msg bucketsLength bucketId)
  | 0, _, _, _, h => absurd h (Nat.not_lt_zero _)
  | turns + 1, msg, bucketsLength, bucketId, h => by
    rw [ofputilPullOfp11Buckets]
    split
    · trivial
    refine answers_pullOfp11Bucket.bind fun ⟨bucket, len, rest⟩ ⟨hpos, hle⟩ => ?_
    dsimp only at hpos hle
    exact (answers_ofputilPullOfp11Buckets (by omega)).bind fun _ _ => trivial

/-! ### Buckets of OpenFlow 1.5 -/

/-- The header of a bucket is in the buffer, and the lengths in it agree with each other and with the array. -/
def BucketHeaderOk (msg : List UInt8) (bucketsLength : Nat) : Prop :=
  8 ≤ msg.length ∧ 8 ≤ obLen msg ∧ obLen msg ≤ bucketsLength ∧ actionsLen msg ≤ obLen msg - 8

instance (msg : List UInt8) (bucketsLength : Nat) : Decidable (BucketHeaderOk msg bucketsLength) :=
  inferInstanceAs (Decidable (_ ∧ _))

/-- What comes after the properties of a bucket have been pulled. -/
def finishOfp15Bucket (groupType : Nat) (msg properties rest : List UInt8) (ofpacts : List Ofpact) :
    Decode (OfputilBucket × Nat × List UInt8) := do
  let init : BucketProps := ⟨if groupType = ofpgt11Select then 1 else 0, 0xffffffff, 0xffffffff⟩
  let props ← bucketPropsLoop (properties.length + 1) properties init
  let watchPort ← ofputilPortFromOfp11 props.watchPort
  if ofpg15BucketMax < num (read msg 4 4) then err .ofpgmfcBadBucket
  else .ok (⟨props.weight, watchPort, props.watchGroup, num (read msg 4 4), ofpacts⟩, obLen msg, rest)

theorem pullOfp15Bucket_eq (groupType : Nat) (msg : List UInt8) (bucketsLength : Nat) :
    pullOfp15Bucket o v groupType msg bucketsLength =
      if BucketHeaderOk msg bucketsLength then do
        let (ofpacts, rest) ← pullActions o v (msg.drop 8) (actionsLen msg)
        let (properties, rest) ← pull rest (obLen msg - 8 - actionsLen msg)
        finishOfp15Bucket groupType msg properties rest ofpacts
      else err .ofpgmfcBadBucket := by
  rw [pullOfp15Bucket]
  by_cases hheader : 8 ≤ msg.length
  · rw [tryPull_of_le hheader, ok_bind]
    dsimp only
    rw [field_take (by omega) hheader, ok_bind, field_take (by omega) hheader, ok_bind,
      field_take (by omega) hheader]
    by_cases hbad : num (read msg 0 2) < 8 ∨ bucketsLength < num (read msg 0 2) ∨
        num (read msg 0 2) - 8 < num (read msg 2 2)
    · rw [if_pos hbad, if_neg]
      rintro ⟨-, hlen, harray, hactions⟩
      unfold obLen actionsLen at *
      omega
    · have hok : BucketHeaderOk msg bucketsLength := by
        unfold BucketHeaderOk obLen actionsLen
        omega
      rw [if_neg hbad, if_pos hok]
      rfl
  · have hbad : ¬ BucketHeaderOk msg bucketsLength := fun h => hheader h.1
    rw [tryPull_of_lt (not_le.1 hheader), if_neg hbad]
    rfl

theorem answers_finishOfp15Bucket {msg properties : List UInt8} {ofpacts : List Ofpact} :
    Answers (fun r => r.2 = (obLen msg, rest)) (finishOfp15Bucket groupType msg properties rest ofpacts) :=
  (answers_bucketPropsLoop (Nat.lt_succ_self _)).bind fun _ _ =>
    answers_ofputilPortFromOfp11.bind fun _ _ => answers_guard fun _ => rfl

/-- The actions of the bucket at the front of a buffer are accepted. -/
def ActionsOk (o : OtherActions) (v : OfpVersion) (msg : List UInt8) : Prop :=
  (pullActions o v (msg.drop 8) (actionsLen msg)).Succeeds

/-- A bucket is decoded without a fault unless it goes on behind the end of the buffer. -/
theorem faults_pullOfp15Bucket_iff : Faults (pullOfp15Bucket o v groupType msg bucketsLength) ↔
      BucketHeaderOk msg bucketsLength ∧ ActionsOk o v msg ∧ msg.length < obLen msg := by
  rw [pullOfp15Bucket_eq, faults_require]
  refine and_congr_right fun ⟨height, hlen, _, hactions⟩ => ?_
  rw [faults_bind_of_ok, or_iff_right answers_pullActions.not_faults, ActionsOk]
  rintro ⟨ofpacts, rest⟩ hpull
  obtain ⟨hle, rfl⟩ := answers_pullActions.of_ok hpull
  rw [length_drop] at hle
  dsimp only
  rw [pull]
  split
  next hprops =>
    rw [length_drop, length_drop] at hprops
    exact iff_of_false answers_finishOfp15Bucket.not_faults (by omega)
  next hprops =>
    rw [length_drop, length_drop] at hprops
    exact iff_of_true ⟨_, rfl, by rintro _ ⟨⟩⟩ (by omega)

theorem pullOfp15Bucket_ok
    (h : pullOfp15Bucket o v groupType msg bucketsLength = .ok (bucket, len, rest)) :
    len = obLen msg ∧ 8 ≤ len ∧ len ≤ bucketsLength ∧ len ≤ msg.length ∧ rest = msg.drop len := by
  rw [pullOfp15Bucket_eq] at h
  split at h
  case isFalse => cases h
  case isTrue hheader =>
    obtain ⟨height, hlen, harray, hactions⟩ := hheader
    obtain ⟨⟨ofpacts, rest₁⟩, hpull, h⟩ := bind_eq_ok h
    obtain ⟨hle, rfl⟩ := answers_pullActions.of_ok hpull
    rw [length_drop] at hle
    dsimp only at h
    rw [pull] at h
    split at h
    case isFalse => cases h
    case isTrue hprops =>
      obtain ⟨rfl, rfl⟩ := Prod.mk.inj (answers_finishOfp15Bucket.of_ok h)
      rw [length_drop, length_drop] at hprops
      refine ⟨rfl, hlen, harray, by omega, ?_⟩
      simp [*]

/-- Some bucket of an array, after ones that are accepted, goes on behind the end of the buffer. -/
inductive CutOff (o : OtherActions) (v : OfpVersion) (groupType : Nat) : List UInt8 → Nat → Prop
  | here {msg : List UInt8} {bucketsLength : Nat} (hheader : BucketHeaderOk msg bucketsLength)
      (hactions : ActionsOk o v msg) (hcut : msg.length < obLen msg) : CutOff o v groupType msg bucketsLength
  | later {msg : List UInt8} {bucketsLength : Nat}
      (haccepted : (pullOfp15Bucket o v groupType msg bucketsLength).Succeeds)
      (hrest : CutOff o v groupType (msg.drop (obLen msg)) (bucketsLength - obLen msg)) :
      CutOff o v groupType msg bucketsLength

theorem CutOff.lt (h : CutOff o v groupType msg bucketsLength) : msg.length < bucketsLength := by
  induction h with
  | here hheader _ hcut => exact hcut.trans_le hheader.2.2.1
  | later haccepted _ ih =>
    rw [length_drop] at ih
    omega

theorem faults_ofp15BucketsLoop_iff : ∀ {turns : Nat} {msg : List UInt8} {bucketsLength : Nat},
    bucketsLength < turns →
    (Faults (ofp15BucketsLoop o v groupType turns msg bucketsLength) ↔ CutOff o v groupType msg bucketsLength)
  | 0, _, _, h => absurd h (Nat.not_lt_zero _)
  | turns + 1, msg, bucketsLength, h => by
    rw [ofp15BucketsLoop]
    by_cases hempty : bucketsLength = 0
    · rw [hempty]
      refine ⟨fun hf => absurd hf not_fails_ok, fun hcut => absurd hcut.lt (Nat.not_lt_zero _)⟩
    rw [if_neg hempty, faults_bind]
    constructor
    · rintro (hf | ⟨⟨bucket, len, rest⟩, hbucket, hf⟩)
      · obtain ⟨hheader, hactions, hcut⟩ := faults_pullOfp15Bucket_iff.1 hf
        exact .here hheader hactions hcut
      · obtain ⟨rfl, hpos, harray, hle, rfl⟩ := pullOfp15Bucket_ok hbucket
        refine .later ⟨_, hbucket⟩ ((faults_ofp15BucketsLoop_iff (show _ < turns by omega)).1 ?_)
        rcases faults_bind.1 hf with hf | ⟨_, _, hf⟩
        · exact hf
        · exact absurd hf not_fails_ok
    · intro hcut
      cases hcut with
      | here hheader hactions hcut => exact .inl (faults_pullOfp15Bucket_iff.2 ⟨hheader, hactions, hcut⟩)
      | later haccepted hrest =>
        obtain ⟨⟨bucket, len, rest⟩, hbucket⟩ := haccepted
        obtain ⟨rfl, hpos, harray, hle, rfl⟩ := pullOfp15Bucket_ok hbucket
        refine .inr ⟨_, hbucket, faults_bind.2 (.inl ?_)⟩
        exact (faults_ofp15BucketsLoop_iff (by omega)).2 hrest

theorem ofp15BucketsLoop_ok : ∀ {turns : Nat} {msg rest : List UInt8} {bucketsLength : Nat}
    {buckets : List OfputilBucket}, ofp15BucketsLoop o v groupType turns msg bucketsLength = .ok (buckets, rest) →
    bucketsLength ≤ msg.length ∧ rest = msg.drop bucketsLength
  | 0, _, _, _, _, h => by cases h
  | turns + 1, msg, rest, bucketsLength, buckets, h => by
    rw [ofp15BucketsLoop] at h
    split at h
    case isTrue hempty =>
      cases h
      simp [*]
    case isFalse =>
      obtain ⟨⟨bucket, len, rest₁⟩, hbucket, h⟩ := bind_eq_ok h
      obtain ⟨⟨buckets', rest₂⟩, hloop, h⟩ := bind_eq_ok h
      cases h
      obtain ⟨-, hpos, harray, hle, rfl⟩ := pullOfp15Bucket_ok hbucket
      obtain ⟨hle', rfl⟩ := ofp15BucketsLoop_ok hloop
      simp_all

theorem faults_ofputilPullOfp15Buckets_iff :
    Faults (ofputilPullOfp15Buckets o v groupType msg bucketsLength) ↔ CutOff o v groupType msg bucketsLength := by
  rw [ofputilPullOfp15Buckets, faults_bind_left, faults_ofp15BucketsLoop_iff (Nat.lt_succ_self _)]
  rintro ⟨buckets, rest⟩ hf
  dsimp only at hf
  split at hf
  · exact not_fails_ok hf
  · exact not_faults_err hf

theorem ofputilPullOfp15Buckets_ok
    {buckets : List OfputilBucket} (h : ofputilPullOfp15Buckets o v groupType msg bucketsLength = .ok (buckets, rest)) :
    bucketsLength ≤ msg.length ∧ rest = msg.drop bucketsLength := by
  obtain ⟨⟨buckets', rest'⟩, hloop, h⟩ := bind_eq_ok h
  dsimp only at h
  split at h
  · cases h
    exact ofp15BucketsLoop_ok hloop
  · cases h

end

/-! ## Group properties -/

theorem answers_nxmHeader {b : List UInt8} (h : 4 ≤ b.length) :
    Answers (fun header => 4 + nxmExperimenterLen header ≤ b.length) (nxmHeader b) := by
  refine (answers_field (by omega)).bind fun high _ => ?_
  split
  · refine answers_guard fun hlen => (answers_field (by omega)).mono fun header _ => ?_
    rw [nxmExperimenterLen]
    split <;> omega
  next hclass =>
    change 4 + nxmExperimenterLen _ ≤ _
    rw [nxmExperimenterLen, if_neg hclass]
    exact h

section

variable {fieldByHeader : Nat → Option MfField} {b : List UInt8}

theorem answers_nxPullHeader : Answers (fun r => r.2.2.length < b.length) (nxPullHeader fieldByHeader b) := by
  refine answers_guard fun hfour => (answers_nxmHeader (by omega)).bind fun header hheader => answers_guard fun _ => ?_
  refine (answers_pull hheader).bind fun ⟨_, rest⟩ ⟨_, hrest⟩ => ?_
  dsimp only at hrest
  change rest.length < b.length
  rw [hrest, length_drop]
  omega

theorem answers_nxPullEntry : Answers (fun r => r.2.2.length < b.length) (nxPullEntry fieldByHeader b) := by
  refine answers_nxPullHeader.bind fun ⟨header, f, rest⟩ hshorter => ?_
  refine answers_tryPull.bind fun ⟨payload, rest'⟩ ⟨_, hrest⟩ => ?_
  dsimp only at hshorter hrest ⊢
  split
  · exact answers_guard fun _ => answers_err
  split
  · exact answers_err
  · change rest'.length < b.length
    rw [hrest, length_drop]
    omega

theorem answers_oxmPullFieldArray : ∀ {turns : Nat} {b : List UInt8} {fa : List (Nat × List UInt8)},
    b.length < turns → Answers (fun _ => True) (oxmPullFieldArray fieldByHeader turns b fa)
  | 0, _, _, h => absurd h (Nat.not_lt_zero _)
  | turns + 1, b, fa, h => by
    rw [oxmPullFieldArray]
    split
    · trivial
    refine answers_nxPullEntry.bind fun ⟨f, value, rest⟩ hshorter => answers_guard fun _ => ?_
    dsimp only at hshorter
    split
    · exact answers_oxmPullFieldArray (by omega)
    · exact answers_err

/-- A group type or a command that the selection method is checked against without being known. -/
def Unchecked (groupType groupCmd : Nat) : Prop :=
  groupType ∉ [ofpgt11All, ofpgt11Select, ofpgt11Indirect, ofpgt11Ff] ∨
    groupType = ofpgt11Select ∧
      groupCmd ∉ [ofpgc15Add, ofpgc15Modify, ofpgc15Delete, ofpgc15InsertBucket, ofpgc15RemoveBucket]

instance (groupType groupCmd : Nat) : Decidable (Unchecked groupType groupCmd) := inferInstanceAs (Decidable (_ ∨ _))

variable {groupType groupCmd : Nat} {payload : List UInt8} {msg : List UInt8}

theorem parseGroupPropNtrSelectionMethod_unchecked (h : Unchecked groupType groupCmd)
    (payload : List UInt8) (gp : OfputilGroupProps) :
    parseGroupPropNtrSelectionMethod fieldByHeader payload groupType groupCmd gp = .error .notReached := by
  simp only [Unchecked, mem_cons, not_or] at h
  rw [parseGroupPropNtrSelectionMethod]
  rcases h with ⟨hall, hselect, hindirect, hff⟩ | ⟨rfl, hadd, hmodify, hdelete, hinsert, hremove⟩
  · rw [if_neg (by tauto), if_pos hselect]
  · rw [if_neg (by decide), if_neg (by decide), if_neg (by tauto), if_pos ⟨hadd, hmodify⟩]

/-- With a known type and command, a property with the length it states is parsed without a fault. -/
theorem answers_parseGroupPropNtrSelectionMethod
    (h : ¬ Unchecked groupType groupCmd) (hlen : propLen payload = payload.length) (gp : OfputilGroupProps) :
    Answers (fun _ => True) (parseGroupPropNtrSelectionMethod fieldByHeader payload groupType groupCmd gp) := by
  simp only [Unchecked, mem_cons, not_mem_nil] at h
  refine answers_guard fun hall => ?_
  rw [if_neg (not_not.2 (show groupType = ofpgt11Select by tauto))]
  refine answers_guard fun hdelete => ?_
  rw [if_neg (by tauto)]
  refine answers_guard fun hsize => answers_guard fun _ => answers_guard fun _ => ?_
  refine (answers_field (by omega)).bind fun param _ => answers_guard fun _ => ?_
  refine (answers_pull (by omega)).bind fun ⟨_, rest⟩ ⟨_, hrest⟩ => ?_
  dsimp only at hrest ⊢
  rw [field_of_le (by omega)]
  refine answers_guard fun _ => ?_
  have hfields : num (read payload 2 2) - 40 ≤ rest.length := by
    rw [hrest, length_drop]
    unfold propLen at hlen
    omega
  rw [useConst_of_le hfields, ok_bind]
  exact (answers_oxmPullFieldArray (Nat.lt_succ_self _)).bind fun _ _ => trivial

/-- A property that is handed to the parser of the selection method. -/
def NtrProperty (payload : List UInt8) : Prop :=
  12 ≤ payload.length ∧
    (num (read payload 4 4) % 2 ^ 16 = ntrVendorId ∨ num (read payload 4 4) % 2 ^ 16 = ntrCompatVendorId) ∧
    num (read payload 8 4) = ntrtSelectionMethod

instance (payload : List UInt8) : Decidable (NtrProperty payload) := inferInstanceAs (Decidable (_ ∧ _))

theorem parseOfp15GroupPropExp_of_ntr (h : NtrProperty payload) (groupType groupCmd : Nat)
    (gp : OfputilGroupProps) : parseOfp15GroupPropExp fieldByHeader payload groupType groupCmd gp =
      parseGroupPropNtrSelectionMethod fieldByHeader payload groupType groupCmd gp := by
  obtain ⟨hlen, hvendor, htype⟩ := h
  rw [parseOfp15GroupPropExp, if_neg (by omega), field_of_le (by omega), ok_bind, field_of_le (by omega),
    ok_bind, if_pos hvendor, if_pos htype]

theorem parseOfp15GroupPropExp_of_not_ntr (fieldByHeader : Nat → Option MfField) (h : ¬ NtrProperty payload) (groupType groupCmd : Nat)
    (gp : OfputilGroupProps) :
    ∃ e, parseOfp15GroupPropExp fieldByHeader payload groupType groupCmd gp = err e := by
  rw [parseOfp15GroupPropExp]
  split
  · exact ⟨_, rfl⟩
  rw [field_of_le (by omega), ok_bind, field_of_le (by omega), ok_bind]
  split
  next hvendor =>
    split
    next htype => exact absurd ⟨by omega, hvendor, htype⟩ h
    · exact ⟨_, rfl⟩
  · exact ⟨_, rfl⟩

theorem answers_parseOfp15GroupPropExp
    (h : ¬ Unchecked groupType groupCmd) (hlen : propLen payload = payload.length) (gp : OfputilGroupProps) :
    Answers (fun _ => True) (parseOfp15GroupPropExp fieldByHeader payload groupType groupCmd gp) := by
  by_cases hntr : NtrProperty payload
  · rw [parseOfp15GroupPropExp_of_ntr hntr]
    exact answers_parseGroupPropNtrSelectionMethod h hlen gp
  · obtain ⟨e, he⟩ := parseOfp15GroupPropExp_of_not_ntr fieldByHeader hntr groupType groupCmd gp
    rw [he]
    exact answers_err

theorem answers_groupPropsLoop (h : ¬ Unchecked groupType groupCmd) :
    ∀ {turns : Nat} {properties : List UInt8} {gp : OfputilGroupProps}, properties.length < turns →
    Answers (fun _ => True) (groupPropsLoop fieldByHeader groupType groupCmd turns properties gp)
  | 0, _, _, hturns => absurd hturns (Nat.not_lt_zero _)
  | turns + 1, properties, gp, hturns => by
    rw [groupPropsLoop]
    split
    · trivial
    refine answers_ofputilPullProperty.bind fun ⟨type, payload, rest⟩ ⟨hlen, hshorter⟩ => ?_
    dsimp only at hlen hshorter ⊢
    split
    · exact (answers_parseOfp15GroupPropExp h hlen gp).bind fun _ _ => answers_groupPropsLoop h (by omega)
    · exact answers_err

/-- The first of some properties is a selection method. -/
def SelectionMethodFirst (properties : List UInt8) : Prop :=
  PropertyFits properties ∧ num (read properties 0 2) = ofpgpt15Experimenter ∧
    NtrProperty (properties.take (propLen properties))

instance (properties : List UInt8) : Decidable (SelectionMethodFirst properties) := inferInstanceAs (Decidable (_ ∧ _))

theorem faults_groupPropsLoop_iff {properties : List UInt8} {gp : OfputilGroupProps} :
    Faults (groupPropsLoop fieldByHeader groupType groupCmd (properties.length + 1) properties gp) ↔
      Unchecked groupType groupCmd ∧ SelectionMethodFirst properties := by
  by_cases h : Unchecked groupType groupCmd
  case neg => exact ⟨fun hf => absurd hf (answers_groupPropsLoop h (Nat.lt_succ_self _)).not_faults, fun hf => absurd hf.1 h⟩
  rw [groupPropsLoop, ofputilPullProperty_eq, and_iff_right h]
  by_cases hpos : properties.length = 0
  · rw [if_pos hpos]
    refine iff_of_false not_fails_ok fun hf => ?_
    have hfour := hf.1.1
    omega
  rw [if_neg hpos]
  by_cases hfits : PropertyFits properties
  case neg =>
    rw [if_neg hfits]
    exact iff_of_false not_faults_err fun hf => hfits hf.1
  rw [if_pos hfits, ok_bind, SelectionMethodFirst, and_iff_right hfits]
  rw [faults_require]
  refine and_congr_right fun _ => ?_
  by_cases hntr : NtrProperty (properties.take (propLen properties))
  · rw [parseOfp15GroupPropExp_of_ntr hntr, parseGroupPropNtrSelectionMethod_unchecked h]
    exact iff_of_true ⟨_, rfl, by rintro _ ⟨⟩⟩ hntr
  · obtain ⟨e, he⟩ := parseOfp15GroupPropExp_of_not_ntr fieldByHeader hntr groupType groupCmd gp
    rw [he]
    exact iff_of_false not_faults_err hntr

theorem faults_parseOfp15GroupProperties_iff {propertiesLen : Nat}
    (hlen : propertiesLen ≤ msg.length) :
    Faults (parseOfp15GroupProperties fieldByHeader msg groupType groupCmd propertiesLen) ↔
      Unchecked groupType groupCmd ∧ SelectionMethodFirst (msg.take propertiesLen) := by
  rw [parseOfp15GroupProperties, pull_of_le hlen, ok_bind]
  rw [faults_bind_left fun _ => not_fails_ok, faults_groupPropsLoop_iff]

end

/-! ## Messages -/

/-- Decoding returns: with what was decoded, or with an error for the sender. -/
def Returns (x : Decode α) : Prop := (∃ a, x = .ok a) ∨ ∃ e, x = err e

theorem returns_iff {x : Decode α} : Returns x ↔ ¬ Faults x := by
  constructor
  · rintro (⟨a, rfl⟩ | ⟨e, rfl⟩)
    · exact not_fails_ok
    · exact not_faults_err
  · intro h
    cases x with
    | ok a => exact .inl ⟨a, rfl⟩
    | error s =>
      by_contra hnot
      refine h ⟨s, rfl, fun e hs => hnot (.inr ⟨e, ?_⟩)⟩
      rw [hs]
      rfl

/-- By the time the buckets are looked at, the type is known. -/
theorem answers_checkGroupMod (gm : OfputilGroupMod) : Answers (fun _ => True) (checkGroupMod gm) := by
  refine answers_guard fun _ => answers_guard fun htype => answers_guard fun _ => answers_guard fun _ => ?_
  have hbucket : ∀ bucket, Answers (fun _ => True) (checkBucket gm.type bucket) := by
    intro bucket
    simp only [mem_cons, not_not] at htype
    refine answers_guard fun _ => ?_
    split
    · exact answers_guard fun _ => trivial
    split
    · trivial
    split
    · split
      · trivial
      · exact answers_err
    · tauto
  have hbuckets : ∀ buckets : List OfputilBucket, Answers (fun _ => True) (buckets.forM (checkBucket gm.type)) := by
    intro buckets
    induction buckets with
    | nil => trivial
    | cons bucket buckets ih => exact (hbucket bucket).bind fun _ _ => ih
  exact (hbuckets gm.buckets).bind fun _ _ => trivial

section

variable {o : OtherActions} {fieldByHeader : Nat → Option MfField} {v : OfpVersion} {msg : List UInt8}

theorem answers_ofputilPullOfp11GroupMod (hmsg : 8 ≤ msg.length) :
    Answers (fun _ => True) (ofputilPullOfp11GroupMod o v msg) := by
  refine (answers_pull hmsg).bind fun ⟨ogm, rest⟩ ⟨hogm, _⟩ => ?_
  dsimp only at hogm
  refine (answers_field (by omega)).bind fun command _ => ?_
  refine (answers_field (by omega)).bind fun type _ => ?_
  refine (answers_field (by omega)).bind fun groupId _ => ?_
  exact (answers_ofputilPullOfp11Buckets (Nat.lt_succ_self _)).bind fun ⟨buckets, rest⟩ _ => answers_guard fun _ => trivial

/-- A group-mod of OpenFlow 1.5 with a bucket that goes on behind the end of the message, or with a selection method for
a type or command that is not known. -/
def GroupModAborts (o : OtherActions) (msg : List UInt8) : Prop :=
  let command := num (read msg 0 2)
  let type := num (read msg 2 1)
  let bucketArrayLen := num (read msg 8 2)
  CommandBucketIdOk command (num (read msg 12 4)) ∧
    (CutOff o .ofp15 type (msg.drop 16) bucketArrayLen ∨
      (ofputilPullOfp15Buckets o .ofp15 type (msg.drop 16) bucketArrayLen).Succeeds ∧ Unchecked type command ∧
        SelectionMethodFirst (msg.drop (16 + bucketArrayLen)))

theorem faults_ofputilPullOfp15GroupMod_iff (hmsg : 16 ≤ msg.length) :
    Faults (ofputilPullOfp15GroupMod o fieldByHeader .ofp15 msg) ↔ GroupModAborts o msg := by
  rw [ofputilPullOfp15GroupMod, pull_of_le hmsg, ok_bind]
  dsimp only
  rw [field_take (by omega) hmsg, ok_bind, field_take (by omega) hmsg, ok_bind,
    field_take (by omega) hmsg, ok_bind, field_take (by omega) hmsg, ok_bind]
  rw [faults_require, field_take (by omega) hmsg, ok_bind, faults_bind_of_ok, faults_ofputilPullOfp15Buckets_iff,
    GroupModAborts]
  rintro ⟨buckets, rest⟩ hbuckets
  obtain ⟨-, rfl⟩ := ofputilPullOfp15Buckets_ok hbuckets
  rw [faults_bind_left fun _ => not_fails_ok, faults_parseOfp15GroupProperties_iff (le_refl _), take_length, drop_drop]

theorem answers_ofputilDecodeOfp11GroupDescReply : Answers (fun _ => True) (ofputilDecodeOfp11GroupDescReply o v msg) := by
  refine answers_guard fun _ => answers_tryPull.bind fun ⟨ogds, rest⟩ ⟨hogds, _⟩ => ?_
  dsimp only at hogds
  refine (answers_field (by omega)).bind fun length _ => ?_
  refine (answers_field (by omega)).bind fun type _ => ?_
  refine (answers_field (by omega)).bind fun groupId _ => answers_guard fun _ => ?_
  exact (answers_ofputilPullOfp11Buckets (Nat.lt_succ_self _)).bind fun _ _ => trivial

/-- A description of OpenFlow 1.5 with a selection method for a type that is not known. -/
def GroupDescAborts (o : OtherActions) (msg : List UInt8) : Prop :=
  let length := num (read msg 0 2)
  let type := num (read msg 2 1)
  let bucketListLen := num (read msg 8 2)
  16 + bucketListLen ≤ length ∧ length ≤ msg.length ∧
    (ofputilPullOfp15Buckets o .ofp15 type (msg.drop 16) bucketListLen).Succeeds ∧ Unchecked type ofpgc15Add ∧
      SelectionMethodFirst ((msg.drop (16 + bucketListLen)).take (length - 16 - bucketListLen))

theorem faults_ofputilDecodeOfp15GroupDescReply_iff :
    Faults (ofputilDecodeOfp15GroupDescReply o fieldByHeader .ofp15 msg) ↔ GroupDescAborts o msg := by
  rw [ofputilDecodeOfp15GroupDescReply]
  by_cases hheader : 16 ≤ msg.length
  case neg =>
    rw [tryPull_of_lt (not_le.1 hheader)]
    refine iff_of_false (fun hf => not_faults_err (faults_guard.1 hf).2) ?_
    rintro ⟨hlen, hle, -⟩
    omega
  have hpos : ¬ msg.length = 0 := by omega
  rw [if_neg hpos, tryPull_of_le hheader, ok_bind]
  dsimp only
  rw [field_take (by omega) hheader, ok_bind, field_take (by omega) hheader, ok_bind,
    field_take (by omega) hheader, ok_bind, length_drop, faults_guard, field_take (by omega) hheader, ok_bind, faults_guard]
  by_cases hlens : 16 + num (read msg 8 2) ≤ num (read msg 0 2) ∧ num (read msg 0 2) ≤ msg.length
  case neg => exact iff_of_false (fun hf => hlens (by omega)) fun hf => hlens ⟨hf.1, hf.2.1⟩
  rw [and_iff_right (by omega), and_iff_right (by omega), GroupDescAborts, and_iff_right hlens.1, and_iff_right hlens.2,
    faults_bind_of_ok, faults_ofputilPullOfp15Buckets_iff]
  · refine or_iff_right fun hcut => ?_
    have hlt := hcut.lt
    rw [length_drop] at hlt
    omega
  rintro ⟨buckets, rest⟩ hbuckets
  obtain ⟨-, rfl⟩ := ofputilPullOfp15Buckets_ok hbuckets
  rw [drop_drop, faults_bind_left fun _ => not_fails_ok, faults_parseOfp15GroupProperties_iff]
  rw [length_drop]
  omega

end

/-- Decoding a group message of OpenFlow 1.1 to 1.4 always returns. A group-mod of 1.5 is decoded to the end just when no
bucket is cut off and no selection method comes with an unknown type or command, a description of 1.5 just when no
selection method comes with an unknown type. -/
theorem groupMessages_return_iff (o : OtherActions) (fieldByHeader : Nat → Option MfField) :
    (∀ v msg, v ∈ [OfpVersion.ofp11, .ofp12, .ofp13, .ofp14] → 8 ≤ msg.length →
        Returns (ofputilDecodeGroupMod o fieldByHeader v msg)) ∧
      (∀ msg, 16 ≤ msg.length → (Returns (ofputilDecodeGroupMod o fieldByHeader .ofp15 msg) ↔ ¬ GroupModAborts o msg)) ∧
      (∀ v msg, v ∈ [OfpVersion.ofp11, .ofp12, .ofp13, .ofp14] →
        Returns (ofputilDecodeGroupDescReply o fieldByHeader v msg)) ∧
      ∀ msg, Returns (ofputilDecodeGroupDescReply o fieldByHeader .ofp15 msg) ↔ ¬ GroupDescAborts o msg := by
  refine ⟨fun v msg hv hmsg => returns_iff.2 ?_, fun msg hmsg => returns_iff.trans (not_congr ?_),
    fun v msg hv => returns_iff.2 ?_, fun msg => returns_iff.trans (not_congr ?_)⟩
  · have hnot : ¬ Faults (ofputilPullOfp11GroupMod o v msg >>= checkGroupMod) :=
      Answers.not_faults ((answers_ofputilPullOfp11GroupMod hmsg).bind fun gm _ => answers_checkGroupMod gm)
    simp only [mem_cons, not_mem_nil, or_false] at hv
    rcases hv with rfl | rfl | rfl | rfl <;> exact hnot
  · rw [ofputilDecodeGroupMod, faults_bind_left fun gm => (answers_checkGroupMod gm).not_faults,
      faults_ofputilPullOfp15GroupMod_iff hmsg]
  · simp only [mem_cons, not_mem_nil, or_false] at hv
    rcases hv with rfl | rfl | rfl | rfl <;> exact answers_ofputilDecodeOfp11GroupDescReply.not_faults
  · exact faults_ofputilDecodeOfp15GroupDescReply_iff

set_option maxRecDepth 8000 in
/-- A group-mod whose only bucket says that it has eight bytes of properties and is the end of the message, and one of
the unknown type 9 with a selection method. -/
theorem groupMod_aborts : ofputilDecodeGroupMod gtpOnly (fun _ => none) .ofp15
        ([0, 0, 0, 0, 0, 0, 0, 1, 0, 16, 0, 0, 0xff, 0xff, 0xff, 0xff] ++ [0, 16, 0, 0, 0, 0, 0, 0]) =
      .error .overPull ∧
    ofputilDecodeGroupMod gtpOnly (fun _ => none) .ofp15
        ([0, 0, 9, 0, 0, 0, 0, 1, 0, 0, 0, 0, 0xff, 0xff, 0xff, 0xff] ++
          [0xff, 0xff, 0, 16, 0, 0, 0x15, 0x4d, 0, 0, 0, 1, 0, 0, 0, 0]) = .error .notReached := by
  exact ⟨rfl, rfl⟩

end LinkerOvs.Ofp.Group
