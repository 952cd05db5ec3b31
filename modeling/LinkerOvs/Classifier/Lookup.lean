/-
Lookups in the classifier (`lib/classifier.c`, from `check_tries` to `find_match_wc` and
`classifier_lookup__`): the subtables in order of priority, each by stages that look at as few bits of the
flow as they can, and after them the conjunctive matches among the rules that were found.
-/
import LinkerOvs.Classifier.Table

namespace LinkerOvs.Cls

/-! ## One subtable -/

/-- The bits to unwildcard, and whether there may be matches of a prefix length. -/
def trieLookup (env : Env) (trie : ClsTrie) (f : Flow) : Nat × (Nat → Bool) :=
  if env.prereqsOk trie.field f then
    let r := trieLookupValue trie.root (trie.field.bits f)
    (r.1, fun plen => plen ∈ r.2)
  else (0, fun _ => true)

def flowmapIsSet (map : Flowmap) (idx : Nat) : Bool := map.any fun i => i.val = idx

/-- Whether the rest of the subtable can be skipped, and the wildcards. The lookup that a `trie_ctx` keeps is made
again. -/
def checkTries (env : Env) (f : Flow) (rangeMap : Flowmap) : List ClsTrie → List Nat → Flow → Bool × Flow
  | trie :: tries, plen :: plens, wc =>
    let be32ofs := trie.field.be32ofs
    if plen ≠ 0 ∧ flowmapIsSet rangeMap (be32ofs / 2) ∧ (trieLookup env trie f).2 plen = false then
      let maskbits := (trieLookup env trie f).1
      if maskbits ≤ plen then (true, maskSetPrefixBits wc be32ofs maskbits)
      else if maskPrefixBitsSet wc be32ofs maskbits then (true, wc)
      else checkTries env f rangeMap tries plens wc
    else checkTries env f rangeMap tries plens wc
  | _, _, wc => (false, wc)

/-- The first match of a list that is visible, with those behind it. -/
def visibleFrom (v : Version) (list : List ClsMatch) : List ClsMatch := list.dropWhile fun m => !m.visibleIn v

/-- The loop of `find_match` over the chains with a hash. The result is the match with those that its `next` pointers
lead to. -/
def findMatchLoop (mask : Flow) (v : Version) (f : Flow) : List Chain → List ClsMatch
  | [] => []
  | c :: cs =>
    if miniflowAndMaskMatchesFlow c.flow mask f ∧ visibleFrom v c.list ≠ [] then visibleFrom v c.list
    else findMatchLoop mask v f cs

def findMatch (S : ClsSubtable) (v : Version) (f : Flow) (hash : UInt32) : List ClsMatch :=
  findMatchLoop S.mask v f (S.rules.filter fun c => c.hash = hash)

/-- From the final range on in `find_match_wc`. -/
def finalStage (env : Env) (tries : List ClsTrie) (S : ClsSubtable) (v : Version) (f : Flow) (stagesMap : Flowmap)
    (s : HashState) (wc : Flow) : List ClsMatch × Flow :=
  match checkTries env f S.lastMap tries S.triePlen wc with
  | (true, wc) => ([], flowWildcardsFoldMinimaskInMap wc S.mask stagesMap)
  | (false, wc) =>
    let rule := findMatch S v f ((hashRange f S.mask env.hash s S.lastMap).hash env.hash)
    if rule = [] ∧ S.portsMaskLen ≠ 0 then
      let mbits := (trieLookupValue S.portsTrie (maskedPorts f S.mask)).1
      let wc := wc.orBe32 tpPortsOfs32 (S.mask.be32 tpPortsOfs32 &&& be32PrefixMask mbits)
      ([], flowWildcardsFoldMinimaskInMap wc S.mask stagesMap)
    else (rule, flowWildcardsFoldMinimask wc S.mask)

/-- The loop of `find_match_wc` over the stages. -/
def stagesLoop (env : Env) (tries : List ClsTrie) (S : ClsSubtable) (v : Version) (f : Flow) :
    List Stage → Flowmap → HashState → Flow → List ClsMatch × Flow
  | [], stagesMap, s, wc => finalStage env tries S v f stagesMap s wc
  | stage :: stages, stagesMap, s, wc =>
    match checkTries env f stage.map tries S.triePlen wc with
    | (true, wc) => ([], flowWildcardsFoldMinimaskInMap wc S.mask stagesMap)
    | (false, wc) =>
      let stagesMap := stagesMap ++ stage.map
      let s := hashRange f S.mask env.hash s stage.map
      match stage.index.filter fun n => n.hash = s.hash env.hash with
      | [] => ([], flowWildcardsFoldMinimaskInMap wc S.mask stagesMap)
      | [inode] =>
        -- a single rule is left: check whether it matches
        match S.rules.find? fun c => c.head.rule.id = inode.head with
        | some c =>
          let r := miniflowAndMaskMatchesFlowWc c.flow S.mask f wc
          (if r.1 then visibleFrom v c.list else [], r.2)
        | none => ([], wc)
      | _ => stagesLoop env tries S v f stages stagesMap s wc

/-- The null pointer is `[]`. -/
def findMatchWc (env : Env) (tries : List ClsTrie) (S : ClsSubtable) (v : Version) (f : Flow) :
    Option Flow → List ClsMatch × Option Flow
  | none => (findMatch S v f (flowHashInMinimask env.hash f S.mask), none)
  | some wc =>
    let r := stagesLoop env tries S v f S.stages [] {} wc
    (r.1, some r.2)

/-! ## The main loop -/

/-- The variables of `classifier_lookup__`. A `conj_set` in `soft` is the match it belongs to, with those behind it,
and a null pointer is `[]`. -/
structure LookupState where
  hard : Option ClsMatch := none
  hardPri : Int := intMin
  soft : List (List ClsMatch) := []
  softPri : Int := intMin
  wc : Option Flow

/-- A match found in a subtable, in the main loop. -/
def LookupState.found (allowConjunctiveMatches : Bool) (st : LookupState) : List ClsMatch → LookupState
  | [] => st
  | m :: next =>
    if m.priority ≤ st.hardPri then st
    else if m.conjSet = [] then { st with hard := some m, hardPri := m.priority }
    else if allowConjunctiveMatches then
      { st with
        soft := st.soft ++ [m :: next]
        softPri := if st.softPri < m.priority then m.priority else st.softPri }
    else st

/-- The main loop over the entries of the vector. -/
def mainLoop (env : Env) (cls : Classifier) (v : Version) (f : Flow) (allowConjunctiveMatches : Bool) :
    List (PvectorEntry Flow) → LookupState → LookupState
  | [], st => st
  | e :: es, st =>
    if e.priority > st.hardPri then
      match e.ptr.bind cls.findSubtable with
      | some S =>
        let r := findMatchWc env cls.tries S v f st.wc
        mainLoop env cls v f allowConjunctiveMatches es
          (LookupState.found allowConjunctiveMatches { st with wc := r.2 } r.1)
      | none => st
    else st

def ClsMatch.ruleOf (hard : Option ClsMatch) : Option ClsRule := hard.map (·.rule)

/-- `classifier_lookup__` without conjunctive matches: there are no soft matches, so it returns after the main
loop. -/
def lookupHard (env : Env) (cls : Classifier) (v : Version) (f : Flow) (wc : Option Flow) :
    Option ClsRule × Option Flow :=
  let st := mainLoop env cls v f false cls.subtables.impl.vector { wc }
  (ClsMatch.ruleOf st.hard, st.wc)

/-! ## Conjunctive matches -/

structure ConjunctiveMatch where
  id : UInt32
  clauses : BitVec 64

/-- `min_n_clauses` of a set. -/
def minNClauses : List ClsConjunction → Nat
  | [] => 0
  | c :: cs => cs.foldl (fun n c => min n c.nClauses.toNat) c.nClauses.toNat

/-- The `conjunctive_match` for a conjunction, with its clause. -/
def matchClause (found : List ConjunctiveMatch) (c : ClsConjunction) : ConjunctiveMatch :=
  let clauses := match Keyed.find ConjunctiveMatch.id c.id found with
    | some cm => cm.clauses
    | none => BitVec.allOnes 64 <<< (c.nClauses.toNat % 64)
  { id := c.id, clauses := clauses ||| (1#64 <<< c.clause.toNat) }

/-- The hash map with the `conjunctive_match` that is in it, or with a new one. -/
def putMatch (found : List ConjunctiveMatch) (cm : ConjunctiveMatch) : List ConjunctiveMatch :=
  if (Keyed.find ConjunctiveMatch.id cm.id found).isSome then Keyed.set ConjunctiveMatch.id cm found else cm :: found

/-- The loop of `find_conjunctive_match` over the conjunctions of a rule. -/
def findConjunctiveMatchLoop (maxNClauses : Nat) :
    List ClsConjunction → List ConjunctiveMatch → Option UInt32 × List ConjunctiveMatch
  | [], found => (none, found)
  | c :: cs, found =>
    if c.nClauses.toNat > maxNClauses then findConjunctiveMatchLoop maxNClauses cs found
    else
      let cm := matchClause found c
      let found := putMatch found cm
      if cm.clauses = BitVec.allOnes 64 then (some cm.id, found)
      else findConjunctiveMatchLoop maxNClauses cs found

/-- The id of a conjunction whose clauses all match. -/
def findConjunctiveMatch (set : List ClsConjunction) (maxNClauses : Nat) (found : List ConjunctiveMatch) :
    Option UInt32 × List ConjunctiveMatch :=
  if maxNClauses < minNClauses set then (none, found) else findConjunctiveMatchLoop maxNClauses set found

/-! ## The soft match loop -/

/-- The priority of a soft match that is not null. -/
def softPriority : List ClsMatch → Int
  | [] => intMin
  | m :: _ => m.priority

def softConjSet : List ClsMatch → List ClsConjunction
  | [] => []
  | m :: _ => m.conjSet

/-- A soft match that stays: not null and above the hard match. -/
def softStays (hardPri : Int) (s : List ClsMatch) : Bool := s ≠ [] && softPriority s > hardPri

/-- The loop that deletes soft matches, each by putting the last one in its place. -/
def deleteSoft (hardPri : Int) : Nat → List (List ClsMatch) → List (List ClsMatch)
  | 0, soft => soft
  | _, [] => []
  | n + 1, s :: soft =>
    if softStays hardPri s then s :: deleteSoft hardPri n soft
    else match soft.getLast? with
      | none => []
      | some last => deleteSoft hardPri n (last :: soft.dropLast)

/-- The highest priority among the soft matches and how many have it. -/
def highestSoft (soft : List (List ClsMatch)) : Int × Nat :=
  soft.foldl (fun (softPri, nSoftPri) s =>
    if softPriority s > softPri then (softPriority s, 1)
    else if softPriority s = softPri then (softPri, nSoftPri + 1)
    else (softPri, nSoftPri)) (intMin, 0)

/-- The loop that looks for a real match among the soft matches of the highest priority. -/
def conjunctiveLoop (env : Env) (cls : Classifier) (v : Version) (f : Flow) (softPri : Int) (nSoftPri : Nat) :
    List (List ClsMatch) → List ConjunctiveMatch → Option Flow → Option ClsRule × Option Flow
  | [], _, wc => (none, wc)
  | s :: soft, found, wc =>
    if softPriority s = softPri then
      match findConjunctiveMatch (softConjSet s) nSoftPri found with
      | (some id, found) =>
        match lookupHard env cls v (f.setConjId id) wc with
        | (some rule, wc) => (some rule, wc)
        | (none, wc) => conjunctiveLoop env cls v f softPri nSoftPri soft found wc
      | (none, found) => conjunctiveLoop env cls v f softPri nSoftPri soft found wc
    else conjunctiveLoop env cls v f softPri nSoftPri soft found wc

/-- The loop that goes on to the next lower priority: the matches behind those of the highest priority become soft
matches, or the hard match. -/
def lowerSoft (v : Version) (softPri : Int) : List (List ClsMatch) → Option ClsMatch × Int →
    List (List ClsMatch) × Option ClsMatch × Int
  | [], hard => ([], hard)
  | s :: soft, hard =>
    if softPriority s ≠ softPri then
      let r := lowerSoft v softPri soft hard
      (s :: r.1, r.2)
    else match visibleFrom v s.tail with
      | [] =>
        let r := lowerSoft v softPri soft hard
        ([] :: r.1, r.2)
      | m :: next =>
        if m.conjSet = [] then
          let r := lowerSoft v softPri soft (if m.priority > hard.2 then (some m, m.priority) else hard)
          ([] :: r.1, r.2)
        else
          let r := lowerSoft v softPri soft hard
          ((m :: next) :: r.1, r.2)

/-- The soft match loop, `none` if it needs more turns. -/
def softLoop (env : Env) (cls : Classifier) (v : Version) (f : Flow) :
    Nat → Option ClsMatch × Int → List (List ClsMatch) → Option Flow → Option (Option ClsRule × Option Flow)
  | 0, _, _, _ => none
  | n + 1, hard, soft, wc =>
    let soft := deleteSoft hard.2 soft.length soft
    if soft = [] then some (ClsMatch.ruleOf hard.1, wc)
    else
      let highest := highestSoft soft
      match conjunctiveLoop env cls v f highest.1 highest.2 soft [] wc with
      | (some rule, wc) => some (some rule, wc)
      | (none, wc) =>
        let r := lowerSoft v highest.1 soft hard
        softLoop env cls v f n r.2 r.1 wc

/-- `classifier_lookup` with `turns` turns of the soft match loop: the rule and the wildcards. -/
def classifierLookup (env : Env) (cls : Classifier) (turns : Nat) (v : Version) (f : Flow) (wc : Option Flow) :
    Option (Option ClsRule × Option Flow) :=
  let st := mainLoop env cls v f true cls.subtables.impl.vector { wc }
  if st.hardPri ≥ st.softPri then some (ClsMatch.ruleOf st.hard, st.wc)
  else softLoop env cls v f turns (st.hard, st.hardPri) st.soft st.wc

end LinkerOvs.Cls
