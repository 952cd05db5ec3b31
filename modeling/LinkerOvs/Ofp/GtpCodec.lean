/-
Round trips of the GTP actions. A list of GTP actions written for some version of OpenFlow and read back for
the same version is the same list in every version but 1.5, where the type numbers of the GTP actions are not
theirs: the encoders use the raw actions of 1.2 to 1.4, which the table does not have for 1.5.
-/
import LinkerOvs.Ofp.Codec

namespace LinkerOvs.Ofp

open Bytes List

/-! ## The header of an action -/

/-- The bytes of a standard action: as long as their header says, with the action's type. -/
structure IsAction (type len : Nat) (bs : List UInt8) : Prop where
  length_eq : bs.length = len
  read_type : read bs 0 2 = ofNum 2 type
  read_len : read bs 2 2 = ofNum 2 len

namespace IsAction

variable {type len ofs : Nat} {bs new rest : List UInt8}

theorem of_header (hlen : bs.length = len) (h4 : 4 ≤ len) :
    IsAction type len (write (write bs 0 (ofNum 2 type)) 2 (ofNum 2 len)) := by
  have hfirst : (write bs 0 (ofNum 2 type)).length = len := by
    rw [length_write (by simp; omega), hlen]
  constructor
  · rw [length_write (by simp; omega), hfirst]
  · rw [read_write_before (by omega) (by omega)]
    simpa using read_write_self (ofNum 2 type) (Nat.zero_le bs.length)
  · simpa using read_write_self (ofNum 2 len) (show 2 ≤ (write bs 0 (ofNum 2 type)).length by omega)

section

variable (h : IsAction type len bs)
include h

theorem store (hofs : 4 ≤ ofs) (hin : ofs + new.length ≤ len) :
    IsAction type len (write bs ofs new) := by
  have hlen := h.length_eq
  constructor
  · rw [length_write (by omega), hlen]
  · rw [read_write_before (by omega) (by omega), h.read_type]
  · rw [read_write_before (by omega) (by omega), h.read_len]

theorem num_type (h4 : 4 ≤ len) (ht : type < 65536) : num (read (bs ++ rest) 0 2) = type := by
  have hlen := h.length_eq
  rw [read_append (by omega), h.read_type, num_ofNum_of_lt (by omega)]

theorem num_len (h4 : 4 ≤ len) (hl : len < 65536) : num (read (bs ++ rest) 2 2) = len := by
  have hlen := h.length_eq
  rw [read_append (by omega), h.read_len, num_ofNum_of_lt (by omega)]

theorem actionHdrs_eq (h8 : 8 ≤ len) (ht : type < ofpatVendor) :
    actionHdrs (bs ++ rest) = .ok (0, type) := by
  have hlen := h.length_eq
  have htype : num (read (bs ++ rest) 0 2) = type := h.num_type (by omega) (by unfold ofpatVendor at ht; omega)
  unfold actionHdrs
  rw [if_neg (by rw [length_append, sizeofActionHeader]; omega), htype, if_neg (by omega)]

/-- The length checks of `ofpact_pull_raw`, on an action whose header has been looked up. -/
theorem pullRaw_eq {x : ExtInstances} {v : OfpVersion} {i : OfpactRawInstance}
    (rest : List UInt8) (h8 : 8 ≤ len) (hl : len < 65536) (ht : type < ofpatVendor) (hfind : findHdrs x v (0, type) = .ok i) :
    ofpactPullRaw x v (bs ++ rest) =
      if len < i.minLength ∨ len > i.maxLength ∨ len % 8 ≠ 0 then .error .ofpbacBadLen
      else .ok (i.raw, num (read (bs ++ rest) i.argOfs i.argLen), rest) := by
  have hlen := h.length_eq
  have hfits : ¬ len > (bs ++ rest).length := by
    simp [*]
  simp only [ofpactPullRaw, ofpactDecodeRaw, h.actionHdrs_eq h8 ht, Except.ok_bind, hfind,
    h.num_len (by omega) hl, hfits, false_or]
  rw [← hlen, drop_left]

end

end IsAction

/-- What the generator gives every standard action. -/
structure OfpactRawInstance.Standard (i : OfpactRawInstance) : Prop where
  vendor_eq : i.vendor = 0
  eight_le : 8 ≤ i.minLength
  arg_le : i.argOfs + i.argLen ≤ i.minLength
  arg_ofs : i.argLen = 0 ∨ 4 ≤ i.argOfs

namespace OfpactRawInstance.Standard

variable {i : OfpactRawInstance}

theorem rawBytes_eq (hi : i.Standard) (arg : Nat) :
    ∃ bs, IsAction i.type i.minLength bs ∧ rawBytes i arg = write bs i.argOfs (ofNum i.argLen arg) := by
  have h8 := hi.eight_le
  refine ⟨write (write (write (List.replicate i.minLength 0) 0 (ofNum 2 i.type)) 2 (ofNum 2 i.minLength)) 4 (ofNum 4 0),
    ?_, ?_⟩
  · apply IsAction.store _ (by omega) (by simp; omega)
    exact IsAction.of_header length_replicate (by omega)
  · simp [rawBytes, hi.vendor_eq]

theorem isAction (hi : i.Standard) (arg : Nat) : IsAction i.type i.minLength (rawBytes i arg) := by
  obtain ⟨bs, hbs, heq⟩ := hi.rawBytes_eq arg
  rw [heq]
  rcases hi.arg_ofs with harg | harg
  · simpa [harg, ofNum] using hbs
  · exact hbs.store harg (by simpa using hi.arg_le)

theorem num_arg (hi : i.Standard) {arg : Nat} (harg : arg < 256 ^ i.argLen) (rest : List UInt8) :
    num (read (rawBytes i arg ++ rest) i.argOfs i.argLen) = arg := by
  obtain ⟨bs, hbs, heq⟩ := hi.rawBytes_eq arg
  have hle := hi.arg_le
  have hlen : bs.length = i.minLength := hbs.length_eq
  have hraw : (rawBytes i arg).length = i.minLength := (hi.isAction arg).length_eq
  have hself : read (write bs i.argOfs (ofNum i.argLen arg)) i.argOfs (ofNum i.argLen arg).length = ofNum i.argLen arg :=
    read_write_self _ (by omega)
  rw [length_ofNum] at hself
  rw [read_append (by omega), heq, hself, num_ofNum_of_lt harg]

end OfpactRawInstance.Standard

/-- The argument types whose instances have room for a header. -/
def ArgType.Fits : ArgType → Prop
  | .void => True
  | .scalar size => size = 1 ∨ size = 2 ∨ size = 4
  | .struct size _ => 8 ≤ size

theorem standardInstance_standard (raw : OfpRawActionType) (type : Nat) (v : OfpVersion) :
    ∀ {arg : ArgType}, arg.Fits → (standardInstance raw type arg v).Standard
  | .void, _ => ⟨rfl, by simp [standardInstance, roundUp], by simp [standardInstance], .inl rfl⟩
  | .scalar size, h => by
    rcases h with rfl | rfl | rfl <;> refine ⟨rfl, ?_, ?_, .inr ?_⟩ <;> simp [standardInstance, roundUp]
  | .struct size _, h => ⟨rfl, h, Nat.zero_le _, .inl rfl⟩

/-! ## The GTP actions in the table -/

variable (x : ExtInstances) (k : GtpKind) (v : OfpVersion)

theorem GtpKind.arg_fits : k.arg.Fits := by
  cases k <;> simp [GtpKind.arg, ArgType.Fits, uint8, uint16, uint32, ofpActionDlAddr]

def gtpInstance (set : GtpRaw) (k : GtpKind) (v : OfpVersion) : OfpactRawInstance :=
  standardInstance (.gtp set k) k.type k.arg v

theorem gtpInstance_standard (set : GtpRaw) (k : GtpKind) (v : OfpVersion) : (gtpInstance set k v).Standard :=
  standardInstance_standard _ _ _ k.arg_fits

/-- The part of the table from the GTP actions on. -/
def gtpInstances : List OfpactRawInstance :=
  gtpAnnotations of10 .raw10 ++ gtpAnnotations of11 .raw11 ++ gtpAnnotations of12To14 .raw12 ++
    annotation of15Up 28 (.struct 16 true) .raw15CopyField

theorem basicInstances_type_lt : ∀ i ∈ basicInstances, i.type < 28 := by decide +kernel

/-- A search for one of the types of the GTP actions goes by the actions before them and the vendor extensions. -/
theorem findHdrs_eq {type : Nat} (ht : 28 ≤ type) :
    findHdrs x v (0, type) =
      match gtpInstances.find? fun i => i.vendor = 0 ∧ i.type = type ∧ i.ofpVersion = v with
      | some inst => .ok inst
      | none => .error .ofpbacBadType := by
  have hbasic : basicInstances.find? (fun i => i.vendor = 0 ∧ i.type = type ∧ i.ofpVersion = v) = none := by
    rw [find?_eq_none]
    intro i hi
    have hlt := basicInstances_type_lt i hi
    simp only [decide_eq_true_eq]
    omega
  have hext : x.instances.find? (fun i => i.vendor = 0 ∧ i.type = type ∧ i.ofpVersion = v) = none := by
    rw [find?_eq_none]
    intro i hi
    have hvendor := x.vendor_ne_zero i hi
    simp [*]
  have hsplit : allRawInstances x = basicInstances ++ (gtpInstances ++ x.instances) := by
    simp [allRawInstances, standardInstances, gtpInstances]
  simp only [findHdrs, hsplit, find?_append, hbasic, hext]
  grind

theorem GtpKind.le_type : 28 ≤ k.type := by
  cases k <;> decide

theorem findHdrs_gtp {v : OfpVersion} (hv : v ≠ .ofp15) (k : GtpKind) :
    findHdrs x v (0, k.type) = .ok (gtpInstance (gtpRawFor v) k v) := by
  rw [findHdrs_eq x v k.le_type]
  cases v with
  | ofp15 => exact absurd rfl hv
  | _ => cases k <;> rfl

/-- In 1.5 the type of `handle_gtp` is that of `copy_field`, which is longer, and the other types are not there. -/
theorem findHdrs_gtp_ofp15 : findHdrs x .ofp15 (0, k.type) =
      if k = .handleGtp then .ok (standardInstance .raw15CopyField 28 (.struct 16 true) .ofp15)
      else .error .ofpbacBadType := by
  rw [findHdrs_eq x .ofp15 k.le_type]
  cases k <;> rfl

theorem ofpactRawLookup_gtp (set : GtpRaw) (k : GtpKind) :
    ofpactRawLookup x set.putVersion (.gtp set k) = some (gtpInstance set k set.putVersion) := by
  cases set <;> cases k <;> rfl

/-! ## One action there and back -/

theorem GtpAction.arg_lt (a : GtpAction) (set : GtpRaw) (v : OfpVersion) :
    a.arg < 256 ^ (gtpInstance set a.kind v).argLen := by
  cases a with
  | handleGtp | handlePgwSgi | gtpPgwEth | pgwSgiEth => exact Nat.one_pos
  | operateGtp n | pgwFastpath n => exact n.toNat_lt
  | gtpTeid n => exact n.toNat_lt
  | gtpPgwIp ip => exact (ntohl ip).toNat_lt
  | ovsId n | ovsTotal n | gtpPgwPort n | ovsPhyPort n | pgwSgiPort n => exact n.toNat_lt

theorem GtpKind.type_lt : k.type < ofpatVendor := by
  cases k <;> decide

/-- The lengths of the GTP actions, which depend on neither the set nor the version. -/
def GtpKind.length : GtpKind → Nat
  | .gtpPgwEth | .pgwSgiEth => 16
  | _ => 8

section Fields

variable (set : GtpRaw) (k : GtpKind) (v : OfpVersion)

theorem gtpInstance_raw : (gtpInstance set k v).raw = .gtp set k := by
  cases k <;> rfl

theorem gtpInstance_minLength : (gtpInstance set k v).minLength = k.length := by
  cases k <;> rfl

theorem gtpInstance_maxLength : (gtpInstance set k v).maxLength = k.length := by
  cases k <;> rfl

end Fields

variable (o : OtherActions) (v : OfpVersion) (a : GtpAction)

/-- What the encoder of an action appends. -/
def gtpBytes : List UInt8 :=
  a.fill (rawBytes (gtpInstance (gtpRawFor v) a.kind (gtpRawFor v).putVersion) a.arg)

theorem encodeGtp_eq (x : ExtInstances) (v : OfpVersion) (a : GtpAction) : encodeGtp x v a = some (gtpBytes v a) := by
  have hok : ¬ ((gtpInstance (gtpRawFor v) a.kind (gtpRawFor v).putVersion).argLen = 0 ∧ a.arg ≠ 0) := by
    rintro ⟨hlen, harg⟩
    have hlt := a.arg_lt (gtpRawFor v) (gtpRawFor v).putVersion
    rw [hlen] at hlt
    omega
  simp only [encodeGtp, ofpactPutRaw, ofpactRawLookup_gtp, if_neg hok, Option.map_some, gtpBytes]

theorem gtpBytes_isAction : IsAction a.kind.type a.kind.length (gtpBytes v a) := by
  have h := (gtpInstance_standard (gtpRawFor v) a.kind (gtpRawFor v).putVersion).isAction a.arg
  rw [gtpInstance_minLength] at h
  cases a with
  | gtpPgwEth mac | pgwSgiEth mac => exact h.store (by omega) (by simp [GtpAction.kind, GtpKind.length])
  | _ => exact h

/-- The address that an encoder stores behind the header is the one its decoder reads there. -/
theorem ofNat_read_address {len : Nat} {bs rest : List UInt8} (hlen : bs.length = len) (h10 : 10 ≤ len)
    (mac : Gtp.EthAddr) : BitVec.ofNat 48 (num (read (write bs 4 (ofNum 6 mac.toNat) ++ rest) 4 6)) = mac := by
  have hself : read (write bs 4 (ofNum 6 mac.toNat)) 4 (ofNum 6 mac.toNat).length = ofNum 6 mac.toNat :=
    read_write_self _ (by omega)
  rw [length_ofNum] at hself
  have hlen' : (write bs 4 (ofNum 6 mac.toNat)).length = len := by
    rw [length_write (by simp; omega), hlen]
  rw [read_append (by omega), hself, num_ofNum_of_lt mac.isLt, BitVec.ofNat_toNat, BitVec.setWidth_eq]

theorem decodeGtp_gtpBytes (v v' : OfpVersion) (set : GtpRaw) (a : GtpAction) (rest : List UInt8) :
    decodeGtp a.kind (num (read (gtpBytes v a ++ rest) (gtpInstance set a.kind v').argOfs
      (gtpInstance set a.kind v').argLen)) (gtpBytes v a ++ rest) = a := by
  have hstd := gtpInstance_standard (gtpRawFor v) a.kind (gtpRawFor v).putVersion
  have harg := hstd.num_arg (a.arg_lt (gtpRawFor v) (gtpRawFor v).putVersion) rest
  cases a with
  | handleGtp | handlePgwSgi => rfl
  | gtpPgwEth mac => exact congrArg GtpAction.gtpPgwEth (ofNat_read_address (hstd.isAction 0).length_eq (show 10 ≤ 16 by decide) mac)
  | pgwSgiEth mac => exact congrArg GtpAction.pgwSgiEth (ofNat_read_address (hstd.isAction 0).length_eq (show 10 ≤ 16 by decide) mac)
  | gtpPgwIp ip =>
    refine (congrArg (decodeGtp .gtpPgwIp · _) harg).trans ?_
    simp [decodeGtp, GtpAction.arg, htonl_ntohl]
  | operateGtp n | pgwFastpath n | gtpTeid n | ovsId n | ovsTotal n | gtpPgwPort n | ovsPhyPort n | pgwSgiPort n =>
    refine (congrArg (decodeGtp _ · _) harg).trans ?_
    simp [decodeGtp, GtpAction.arg, GtpAction.kind]

theorem ofpactsDecodeOne_gtpBytes {v : OfpVersion} (hv : v ≠ .ofp15) (a : GtpAction)
    (rest : List UInt8) : ofpactsDecodeOne o v (gtpBytes v a ++ rest) = .ok (.gtp a, rest) := by
  have hact := gtpBytes_isAction v a
  have h8 : 8 ≤ a.kind.length ∧ a.kind.length < 65536 ∧ a.kind.length % 8 = 0 := by
    cases a.kind <;> decide
  have hpull := hact.pullRaw_eq rest h8.1 h8.2.1 a.kind.type_lt (findHdrs_gtp o.ext hv a.kind)
  rw [gtpInstance_minLength, gtpInstance_maxLength, if_neg (by omega), gtpInstance_raw] at hpull
  simp only [ofpactsDecodeOne, hpull, Except.ok_bind, ofpactDecode, decodeGtp_gtpBytes]

theorem ofpactsDecodeOne_gtpBytes_ofp15 (rest : List UInt8) :
    ∃ e, ofpactsDecodeOne o .ofp15 (gtpBytes v a ++ rest) = .error e := by
  have hact := gtpBytes_isAction v a
  have hfind := findHdrs_gtp_ofp15 o.ext a.kind
  by_cases hk : a.kind = .handleGtp
  · -- the length of `handle_gtp` is below that of `copy_field`
    rw [if_pos hk] at hfind
    have hpull := hact.pullRaw_eq rest (by rw [hk]; decide) (by rw [hk]; decide) a.kind.type_lt hfind
    rw [if_pos (by rw [hk]; left; decide)] at hpull
    exact ⟨.ofpbacBadLen, by simp only [ofpactsDecodeOne, hpull, Except.error_bind]⟩
  · rw [if_neg hk] at hfind
    have h8 : 8 ≤ a.kind.length := by
      cases a.kind <;> decide
    refine ⟨.ofpbacBadType, ?_⟩
    simp only [ofpactsDecodeOne, ofpactPullRaw, ofpactDecodeRaw, hact.actionHdrs_eq h8 a.kind.type_lt, Except.ok_bind,
      hfind, Except.error_bind]

/-! ## Lists of actions -/

theorem ofpactsPutOpenflowActions_gtp (o : OtherActions) (v : OfpVersion) :
    ∀ as : List GtpAction, ofpactsPutOpenflowActions o v (as.map .gtp) = some (as.flatMap (gtpBytes v))
  | [] => rfl
  | a :: as => by
    simp [ofpactsPutOpenflowActions, encodeOfpact, encodeGtp_eq, ofpactsPutOpenflowActions_gtp o v as]

theorem gtpBytes_length : (gtpBytes v a).length = a.kind.length :=
  (gtpBytes_isAction v a).length_eq

theorem flatMap_gtpBytes_length (v : OfpVersion) :
    ∀ as : List GtpAction, (as.flatMap (gtpBytes v)).length % 8 = 0 ∧ as.length ≤ (as.flatMap (gtpBytes v)).length
  | [] => by simp
  | a :: as => by
    obtain ⟨hmod, hle⟩ := flatMap_gtpBytes_length v as
    have ha : a.kind.length = 8 ∨ a.kind.length = 16 := by
      cases a.kind <;> decide
    rw [flatMap_cons, length_append, gtpBytes_length, length_cons]
    omega

/-- A turn of the loop on an action that is there to be read. -/
theorem ofpactsDecodeLoop_succ (n : Nat) (a : GtpAction) (rest : List UInt8) :
    ofpactsDecodeLoop o v (n + 1) (gtpBytes v a ++ rest) = (do
      let (a, rest) ← ofpactsDecodeOne o v (gtpBytes v a ++ rest)
      let as ← ofpactsDecodeLoop o v n rest
      .ok (a :: as)) := by
  have hne : gtpBytes v a ++ rest ≠ [] := by
    intro h
    have hlen := congrArg List.length h
    rw [length_append, gtpBytes_length] at hlen
    cases hk : a.kind <;> simp [hk, GtpKind.length] at hlen
  obtain ⟨b, bs, heq⟩ := exists_cons_of_ne_nil hne
  rw [heq]
  rfl

theorem ofpactsDecodeLoop_gtp (o : OtherActions) {v : OfpVersion} (hv : v ≠ .ofp15) :
    ∀ (as : List GtpAction) {n : Nat}, as.length ≤ n →
      ofpactsDecodeLoop o v n (as.flatMap (gtpBytes v)) = .ok (as.map .gtp)
  | [], n, _ => by cases n <;> rfl
  | a :: as, n + 1, h => by
    have ih := ofpactsDecodeLoop_gtp o hv as (Nat.le_of_succ_le_succ h)
    simp only [flatMap_cons, ofpactsDecodeLoop_succ, ofpactsDecodeOne_gtpBytes o hv, Except.ok_bind, ih,
      map_cons]

/-- GTP actions are allowed in an action list, in any order. -/
theorem ofpactsVerifyLoop_gtp (o : OtherActions) (ofpacts : List Ofpact) :
    ∀ (as : List GtpAction) {prev : Option OvsInstructionType}, prev = none ∨ prev = some .applyActions →
      ofpactsVerifyLoop o ofpacts [.applyActions] none prev (as.map .gtp) = .ok ()
  | [], _, _ => rfl
  | a :: as, prev, h => by
    have ih := ofpactsVerifyLoop_gtp o ofpacts as (.inr rfl)
    have hnested : ofpactsVerifyNested o none (.gtp a) = .ok () := by
      simp [ofpactsVerifyNested, o.setsCtField_gtp]
    have hinst : ofpactsVerifyInst [.applyActions] prev .applyActions = .ok () := by
      rcases h with rfl | rfl <;> rfl
    simp only [map_cons, ofpactsVerifyLoop, hnested, instructionType, hinst, Except.ok_bind, ih]

theorem ofpactsPull_gtp {v : OfpVersion} (as : List GtpAction) (tail : List UInt8)
    (h : v ≠ .ofp15 ∨ as = []) :
    ofpactsPullOpenflowActions o (as.flatMap (gtpBytes v) ++ tail) (as.flatMap (gtpBytes v)).length v =
      .ok (as.map .gtp, tail) := by
  obtain ⟨hmod, hle⟩ := flatMap_gtpBytes_length v as
  have hdecode : ofpactsDecode o v (as.flatMap (gtpBytes v)) = .ok (as.map .gtp) := by
    rcases h with hv | rfl
    · exact ofpactsDecodeLoop_gtp o hv as hle
    · rfl
  have hverify : ofpactsVerify o (as.map .gtp) [.applyActions] none = .ok () :=
    ofpactsVerifyLoop_gtp o _ as (.inl rfl)
  unfold ofpactsPullOpenflowActions
  simp_all

theorem ofpactsPull_gtp_ofp15 (as : List GtpAction) (tail : List UInt8) :
    ∃ e, ofpactsPullOpenflowActions o ((a :: as).flatMap (gtpBytes .ofp15) ++ tail)
      ((a :: as).flatMap (gtpBytes .ofp15)).length .ofp15 = .error e := by
  obtain ⟨hmod, hle⟩ := flatMap_gtpBytes_length .ofp15 (a :: as)
  obtain ⟨e, he⟩ := ofpactsDecodeOne_gtpBytes_ofp15 o .ofp15 a (as.flatMap (gtpBytes .ofp15))
  obtain ⟨n, hn⟩ : ∃ n, ((a :: as).flatMap (gtpBytes .ofp15)).length = n + 1 :=
    Nat.exists_eq_succ_of_ne_zero (by rw [length_cons] at hle; omega)
  have hdecode : ofpactsDecode o .ofp15 ((a :: as).flatMap (gtpBytes .ofp15)) = .error e := by
    rw [ofpactsDecode, hn, flatMap_cons, ofpactsDecodeLoop_succ, he, Except.error_bind]
  refine ⟨e, ?_⟩
  unfold ofpactsPullOpenflowActions
  rw [if_neg (by rw [length_append]; omega), take_left, hdecode, Except.error_bind]

/-- Round trip of the GTP actions: what is written for a version reads back as the same actions, with whatever
follows in the message left over, in every version before 1.5. In 1.5 only the empty list does. -/
theorem gtp_actions_round_trip_iff (o : OtherActions) (v : OfpVersion) (as : List GtpAction) (tail : List UInt8) :
    (∃ bs, ofpactsPutOpenflowActions o v (as.map .gtp) = some bs ∧
      ofpactsPullOpenflowActions o (bs ++ tail) bs.length v = .ok (as.map .gtp, tail)) ↔
    v ≠ .ofp15 ∨ as = [] := by
  constructor
  · rintro ⟨bs, hput, hpull⟩
    rw [ofpactsPutOpenflowActions_gtp, Option.some.injEq] at hput
    subst hput
    cases as with
    | nil => exact .inr rfl
    | cons a as =>
      left
      rintro rfl
      obtain ⟨e, he⟩ := ofpactsPull_gtp_ofp15 o a as tail
      rw [he] at hpull
      cases hpull
  · intro h
    exact ⟨_, ofpactsPutOpenflowActions_gtp o v as, ofpactsPull_gtp o as tail h⟩

/-- A switch without any other action. -/
def gtpOnly : OtherActions where
  ext := ⟨[], by simp⟩
  encode _ _ := none
  decode _ _ _ _ := .error .ofpbacBadType
  instruction _ := .applyActions
  setsCtField _ := none
  setsCtField_gtp _ := rfl

set_option maxRecDepth 2000 in
/-- In 1.5, `handle_gtp` is written with the type of `copy_field` and refused as too short for it, and
`operate_gtp:1` is written with a type that nothing has. -/
theorem gtp_actions_lost_in_ofp15 :
    ofpactsPutOpenflowActions gtpOnly .ofp15 [.gtp .handleGtp] = some [0, 28, 0, 8, 0, 0, 0, 0] ∧
    ofpactsPullOpenflowActions gtpOnly [0, 28, 0, 8, 0, 0, 0, 0] 8 .ofp15 = .error .ofpbacBadLen ∧
    ofpactsPutOpenflowActions gtpOnly .ofp15 [.gtp (.operateGtp 1)] = some [0, 29, 0, 8, 1, 0, 0, 0] ∧
    ofpactsPullOpenflowActions gtpOnly [0, 29, 0, 8, 1, 0, 0, 0] 8 .ofp15 = .error .ofpbacBadType := by
  refine ⟨?_, ?_, ?_, ?_⟩ <;> rfl

end LinkerOvs.Ofp
