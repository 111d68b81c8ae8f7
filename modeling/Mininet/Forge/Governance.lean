import Mininet.Forge.Tree

/-!
# Merge governance

A project declares maintainers and how many of them must approve. Merges and amendments are entries
of a chain; resolving a project walks the chain from the project, at each tip to the valid entry of
greatest identifier.
-/

namespace Mininet.Forge

open Codec Fallible Identity Objects List

def projectType : String := "mini/project"

def prType : String := "mini/pr"

def approveType : String := "mini/approve"

def chainType : String := "mini/chain-entry"

def maxMaintainers : ℕ := 64

def maxTitleBytes : ℕ := 256

def maxChainLen : ℕ := 100000

def maxVersionBytes : ℕ := 64

def entryMerge : UInt8 := 1

def entryAmend : UInt8 := 2

def verdictApprove : UInt8 := 1

/-! ### Policies -/

/-- Who the maintainers are and how many of them must approve. -/
structure Policy where
  minApprovals : UInt32
  maintainers : List Did
  deriving DecidableEq

def Policy.contains (policy : Policy) (identityRoot : Did) : Bool :=
  policy.maintainers.any fun m => m.asStr = identityRoot.asStr

lemma Policy.contains_iff {policy : Policy} {root : Did} :
    policy.contains root = true ↔ root ∈ policy.maintainers := by
  simp only [contains, any_eq_true, decide_eq_true_eq]
  constructor
  · rintro ⟨m, hm, heq⟩
    rwa [← Did.asStr_injective heq]
  · exact fun h => ⟨root, h, rfl⟩

def validPolicy (policy : Policy) : Except ForgeError Unit := do
  failIf (policy.maintainers.length = 0 ∨ maxMaintainers < policy.maintainers.length) .fieldTooLarge
  failIf (policy.minApprovals = 0 ∨ policy.maintainers.length < policy.minApprovals.toNat)
    .badObject
  checkDistinct (fun _ => .ok ()) .badObject [] (policy.maintainers.map Did.scid)

structure Policy.Valid (policy : Policy) : Prop where
  length_pos : policy.maintainers.length ≠ 0
  length_le : policy.maintainers.length ≤ maxMaintainers
  min_pos : policy.minApprovals ≠ 0
  min_le : policy.minApprovals.toNat ≤ policy.maintainers.length
  nodup : policy.maintainers.Nodup

lemma validPolicy_ok {policy : Policy} : validPolicy policy = .ok () ↔ policy.Valid := by
  have hscid : Function.Injective Did.scid := fun ⟨a⟩ ⟨b⟩ h => congrArg Did.mk h
  rw [validPolicy, failIf_bind_ok, failIf_bind_ok, checkDistinct_ok, not_or, not_or,
    not_lt, not_lt, nodup_map_iff hscid]
  constructor
  · rintro ⟨⟨hpos, hle⟩, ⟨hmin, hmin'⟩, -, hnodup⟩
    exact ⟨hpos, hle, hmin, hmin', hnodup⟩
  · rintro ⟨hpos, hle, hmin, hmin', hnodup⟩
    exact ⟨⟨hpos, hle⟩, ⟨hmin, hmin'⟩, fun _ _ => rfl, hnodup⟩

def encodePolicy (policy : Policy) : Bytes :=
  toBeBytes policy.minApprovals ++ (countBytes UInt32 policy.maintainers.length ++
    policy.maintainers.flatMap fun m => framed UInt32 (utf8 m.asStr))

section

variable [KeyPrimitives]

def takeDid : Reader ForgeError Did := do
  let s ← takeStr
  lift ((Did.parse s).mapError fun _ => .badObject)

def decodePolicy : Reader ForgeError Policy := do
  let minApprovals ← word .badObject UInt32
  let n ← readCount .badObject .badObject UInt32 maxMaintainers
  lift (failIf (n = 0) .badObject)
  let maintainers ← readMany takeDid n
  return ⟨minApprovals, maintainers⟩

lemma decodes_takeDid : Decodes takeDid (fun d => framed UInt32 (utf8 d.asStr))
    fun d => d.Valid ∧ (utf8 d.asStr).length ≤ 4096 := by
  intro bs d rest
  rw [takeDid, decodes_takeStr.bind]
  simp only [run_lift_ok, mapError_ok]
  constructor
  · rintro ⟨s, hle, mid, rfl, hd, rfl⟩
    obtain ⟨rfl, -⟩ := Did.parse_ok.mp hd
    exact ⟨rfl, hd, hle⟩
  · rintro ⟨rfl, hd, hle⟩
    exact ⟨d.asStr, hle, rest, rfl, hd, rfl⟩

lemma decodes_policy : Decodes decodePolicy encodePolicy fun policy =>
    (policy.maintainers.length ≠ 0 ∧ policy.maintainers.length ≤ maxMaintainers) ∧
      ∀ m ∈ policy.maintainers, m.Valid ∧ (utf8 m.asStr).length ≤ 4096 := by
  intro bs policy rest
  rw [decodePolicy, (decodes_word _ _).bind]
  simp only [(decodes_readCount _ _ UInt32 (by decide : maxMaintainers < _)).bind, lift_bind_ok,
    failIf_ok, (decodes_readMany decodes_takeDid _).bind, run_pure_ok]
  constructor
  · rintro ⟨m, -, mid, rfl, n, hle, mid', rfl, ⟨⟩, hpos, ds, ⟨rfl, hds⟩, mid'', rfl, rfl, rfl⟩
    exact ⟨by simp [encodePolicy], ⟨hpos, hle⟩, hds⟩
  · rintro ⟨rfl, ⟨hpos, hle⟩, hds⟩
    exact ⟨policy.minApprovals, trivial, _, by rw [encodePolicy, append_assoc], _, hle, _,
      by rw [append_assoc], (), hpos, policy.maintainers, ⟨rfl, hds⟩, rest, rfl, rfl, rfl⟩

end

/-- The logs of the identities that a caller vouches for. -/
abbrev IdentityOracle := Did → Option Kel

section

variable [KeyPrimitives] {e : Object}

/-- Whether the author of an object is vouched for and made it with a device that may. -/
def authorVerified (oracle : IdentityOracle) (o : Object) : Bool :=
  match oracle o.authorHuman, oracle o.authorDevice with
  | some root, some device => (verifyProvenance o root device).isOk
  | _, _                   => false

/-! ### Payloads -/

/-- Read a payload in the one form that counts. -/
def parseStrict {α : Type} (p : Reader ForgeError α) (o : Object) : Option α :=
  (do let bytes ← publicBytes o
      whole p .badObject bytes : Except ForgeError α).toOption

omit [KeyPrimitives] in
lemma parseStrict_some {α : Type} {p : Reader ForgeError α} {enc : α → Bytes} {P : α → Prop}
    (h : Decodes p enc P) {o : Object} {a : α} :
    parseStrict p o = some a ↔ o.payload = .pub (enc a) ∧ P a := by
  rw [parseStrict, toOption_some, bind_ok]
  constructor
  · rintro ⟨bytes, hbytes, hwhole⟩
    obtain ⟨rfl, ha⟩ := h.whole_ok.mp hwhole
    exact ⟨publicBytes_ok.mp hbytes, ha⟩
  · rintro ⟨hpayload, ha⟩
    exact ⟨enc a, publicBytes_ok.mpr hpayload, h.whole_ok.mpr ⟨rfl, ha⟩⟩

def approvalPayload : Reader ForgeError String := do
  let verdict ← word .badObject UInt8
  lift (failIf (verdict ≠ verdictApprove) .badObject)
  let reviewed ← takeStr
  let _ ← lift ((ObjectId.parse reviewed).mapError .object)
  return reviewed

lemma decodes_approvalPayload :
    Decodes approvalPayload (fun reviewed => [verdictApprove] ++ framed UInt32 (utf8 reviewed))
      fun reviewed => (utf8 reviewed).length ≤ 4096 ∧ ∃ id, ObjectId.parse reviewed = .ok id := by
  intro bs reviewed rest
  rw [approvalPayload, (decodes_word _ _).bind]
  simp only [lift_bind_ok, failIf_ok, decodes_takeStr.bind, run_pure_ok, mapError_ok,
    not_not, toBeBytes_byte]
  constructor
  · rintro ⟨verdict, -, mid, rfl, ⟨⟩, rfl, s, hle, mid', rfl, id, hid, rfl, rfl⟩
    exact ⟨by simp, hle, id, hid⟩
  · rintro ⟨rfl, hle, id, hid⟩
    exact ⟨verdictApprove, trivial, _, by rw [append_assoc], (), rfl, reviewed, hle, rest, rfl,
      id, hid, rfl, rfl⟩

def parseApprovalPayloadStrict (approval : Object) : Option String :=
  parseStrict approvalPayload approval

inductive ParsedChainEntry where
  | merge
  | amend (policy : Policy)
  deriving DecidableEq

def parseChainEntryPayloadStrict (entry : Object) : Option ParsedChainEntry :=
  match entry.payload with
  | .encrypted _  => none
  | .pub []       => none
  | .pub (b :: bytes) =>
    if b = entryMerge then
      if bytes = [] then some .merge else none
    else if b = entryAmend then do
      let policy ← (whole decodePolicy .badObject bytes).toOption
      if (validPolicy policy).isOk then some (.amend policy) else none
    else none

lemma parseChainEntry_eq_merge :
    parseChainEntryPayloadStrict e = some .merge ↔ e.payload = .pub [entryMerge] := by
  rw [parseChainEntryPayloadStrict]
  constructor
  · intro h
    split at h
    next => cases h
    next => cases h
    next b bytes hpayload =>
      split_ifs at h with hmerge hnil
      · rw [hpayload, hmerge, hnil]
      · obtain ⟨p, -, h⟩ := Option.bind_eq_some_iff.mp h
        split_ifs at h
        cases h
  · intro h
    rw [h]
    rfl

lemma parseChainEntry_eq_amend {policy : Policy} :
    parseChainEntryPayloadStrict e = some (.amend policy) ↔
      e.payload = .pub (entryAmend :: encodePolicy policy) ∧ policy.Valid ∧
        ∀ m ∈ policy.maintainers, m.Valid ∧ (utf8 m.asStr).length ≤ 4096 := by
  rw [parseChainEntryPayloadStrict]
  constructor
  · intro h
    split at h
    next => cases h
    next => cases h
    next b bytes hpayload =>
      split_ifs at h with hmerge hnil hamend
      · cases h
      obtain ⟨p, hp, h⟩ := Option.bind_eq_some_iff.mp h
      split_ifs at h with hvalid
      cases h
      obtain ⟨rfl, -, hmaintainers⟩ := decodes_policy.whole_ok.mp (toOption_some.mp hp)
      exact ⟨by rw [hpayload, hamend], validPolicy_ok.mp (isOk_iff.mp hvalid), hmaintainers⟩
  · rintro ⟨hpayload, hvalid, hmaintainers⟩
    rw [hpayload]
    have hwhole := (decodes_policy.whole_ok (e := ForgeError.badObject)).mpr
      ⟨rfl, ⟨hvalid.length_pos, hvalid.length_le⟩, hmaintainers⟩
    dsimp only
    rw [if_neg (by decide), if_pos rfl, hwhole]
    exact if_pos (isOk_iff.mpr (validPolicy_ok.mpr hvalid))

def prPayload : Reader ForgeError (String × String) := do
  let branch ← takeStr
  let title ← takeStr
  lift (failIf (¬ validName branch ∨ maxVersionBytes < (utf8 branch).length) .badObject)
  lift (failIf (maxTitleBytes < (utf8 title).length) .badObject)
  return (branch, title)

omit [KeyPrimitives] in
lemma decodes_prPayload :
    Decodes prPayload (fun (branch, title) =>
        framed UInt32 (utf8 branch) ++ framed UInt32 (utf8 title))
      fun (branch, title) => validName branch = true ∧ (utf8 title).length ≤ maxTitleBytes := by
  rintro bs ⟨branch, title⟩ rest
  rw [prPayload, decodes_takeStr.bind]
  simp only [decodes_takeStr.bind, lift_bind_ok, failIf_ok, run_pure_ok, not_or, not_not, not_lt]
  constructor
  · rintro ⟨b, -, mid, rfl, t, -, mid', rfl, ⟨⟩, ⟨hname, -⟩, ⟨⟩, htitle, heq, rfl⟩
    cases heq
    exact ⟨by simp, hname, htitle⟩
  · rintro ⟨rfl, hname, htitle⟩
    have hbranch := (validName_iff.mp hname).2.1
    exact ⟨branch, hbranch.trans (by decide), _, by rw [append_assoc], title,
      htitle.trans (by decide), rest, rfl, (), ⟨hname, hbranch⟩, (), htitle, rfl, rfl⟩

def parsePrPayloadStrict (pr : Object) : Option (String × String) := parseStrict prPayload pr

/-! ### Approvals -/

/-- The target of the first link of a relation. -/
def linked (o : Object) (rel : String) : Option ObjectId :=
  (o.links.find? fun l => l.rel = rel).map Link.target

/-- The identity whose approval is stored under an identifier, if it counts. -/
def approvingRoot (s : Store) (oracle : IdentityOracle) (target : ObjectId)
    (boundTo : Option ObjectId) (policy : Policy) (author : Did) (id : ObjectId) : Option String :=
  match s.get id with
  | .error _ => none
  | .ok a    =>
    if a.objectType = .custom approveType ∧
        -- the commit reviewed, or the amendment itself
        parseApprovalPayloadStrict a = some (boundTo.getD target).asStr ∧
        a.authorHuman.asStr ≠ author.asStr ∧ policy.contains a.authorHuman ∧
        authorVerified oracle a then
      some a.authorHuman.scid
    else none

/-- How many maintainers other than the author approve. -/
def quorum (s : Store) (oracle : IdentityOracle) (target : ObjectId) (boundTo : Option ObjectId)
    (policy : Policy) (author : Did) : UInt32 :=
  let roots := (s.linkingTo target).filterMap
    (approvingRoot s oracle target boundTo policy author)
  -- one identity counts once
  UInt32.ofNat roots.dedup.length

/-! ### Entries -/

def mergeIsValid (s : Store) (oracle : IdentityOracle) (projectId : ObjectId) (e : Object)
    (policy : Policy) : Bool :=
  match linked e "pr" with
  | none      => false
  | some prId =>
    match s.get prId with
    | .error _ => false
    | .ok pr   =>
      pr.objectType = .custom prType && authorVerified oracle pr &&
      (parsePrPayloadStrict pr).isSome && linked pr "project" = some projectId &&
      (linked e "prev").isSome && linked pr "base" = linked e "prev" &&
      match linked pr "head" with
      | none      => false
      | some head =>
        match s.get head with
        | .error _ => false
        | .ok h    =>
          authorVerified oracle h && commitIsWellFormed s h &&
            policy.minApprovals ≤ quorum s oracle prId (some head) policy pr.authorHuman

def entryIsValid (s : Store) (oracle : IdentityOracle) (projectId : ObjectId) (e : Object)
    (policy : Policy) : Except ForgeError Bool :=
  match parseChainEntryPayloadStrict e with
  | none                    => .ok false
  | some .merge             => .ok (mergeIsValid s oracle projectId e policy)
  | some (.amend newPolicy) => do
    (validPolicy newPolicy).mapError fun _ => .badObject
    return policy.minApprovals ≤ quorum s oracle e.id none policy e.authorHuman

/-- Move a branch, or add it. -/
def setBranch (branch : String) (head : ObjectId) : List (String × ObjectId) →
    List (String × ObjectId)
  | []             => [(branch, head)]
  | (n, h) :: rest => if n = branch then (n, head) :: rest else (n, h) :: setBranch branch head rest

def applyEntry (s : Store) (e : Object) (policy : Policy) (branches : List (String × ObjectId)) :
    Except ForgeError (Policy × List (String × ObjectId)) := do
  match ← okOr (parseChainEntryPayloadStrict e) .badObject with
  | .merge => do
    let prId ← okOr (linked e "pr") .badObject
    let pr ← (s.get prId).mapError .store
    let (branch, _) ← okOr (parsePrPayloadStrict pr) .badObject
    let head ← okOr (linked pr "head") .badObject
    return (policy, setBranch branch head branches)
  | .amend newPolicy => return (newPolicy, branches)

/-! ### Resolving -/

/-- The state of a project at a position of its chain. -/
structure ProjectState where
  name : String
  policy : Policy
  branches : List (String × ObjectId)
  tip : ObjectId
  entries : ℕ
  forksDetected : Bool

/-- Whether an object is an entry that a maintainer recorded after a tip. -/
def isEntryAfter (oracle : IdentityOracle) (projectId : ObjectId) (policy : Policy)
    (tip : ObjectId) (e : Object) : Bool :=
  e.objectType = .custom chainType && e.links.any (fun l => l.rel = "prev" && l.target = tip) &&
    e.links.any (fun l => l.rel = "project" && l.target = projectId) &&
    policy.contains e.authorHuman && authorVerified oracle e

/-- The valid entry under an identifier, if there is one. -/
def candidate (s : Store) (oracle : IdentityOracle) (projectId : ObjectId) (policy : Policy)
    (tip id : ObjectId) : Except ForgeError (Option Object) :=
  match s.get id with
  | .error _ => .ok none
  | .ok e    =>
    if isEntryAfter oracle projectId policy tip e then do
      let valid ← entryIsValid s oracle projectId e policy
      return if valid then some e else none
    else .ok none

def validEntries (s : Store) (oracle : IdentityOracle) (projectId : ObjectId) (policy : Policy)
    (tip : ObjectId) : Except ForgeError (List Object) := do
  let found ← (s.linkingTo tip).mapM (candidate s oracle projectId policy tip)
  return found.filterMap id

/-- The entry of greatest identifier. -/
def winner (valid : List Object) : Option Object :=
  (valid.insertionSort fun a b => a.id ≤ b.id).getLast?

def genesisPayload : Reader ForgeError (String × Policy) := do
  let name ← takeStr
  lift (failIf (¬ validName name) .badObject)
  let policy ← decodePolicy
  lift ((validPolicy policy).mapError fun _ => .badObject)
  return (name, policy)

lemma decodes_genesisPayload :
    Decodes genesisPayload (fun (name, policy) => framed UInt32 (utf8 name) ++ encodePolicy policy)
      fun (name, policy) => validName name = true ∧ policy.Valid ∧
        ∀ m ∈ policy.maintainers, m.Valid ∧ (utf8 m.asStr).length ≤ 4096 := by
  rintro bs ⟨name, policy⟩ rest
  rw [genesisPayload, decodes_takeStr.bind]
  simp only [lift_bind_ok, failIf_ok, decodes_policy.bind, run_pure_ok, mapError_ok, not_not]
  constructor
  · rintro ⟨n, -, mid, rfl, ⟨⟩, hname, p, ⟨-, hmaintainers⟩, mid', rfl, ⟨⟩, hvalid, heq, rfl⟩
    cases heq
    exact ⟨by simp, hname, validPolicy_ok.mp hvalid, hmaintainers⟩
  · rintro ⟨rfl, hname, hvalid, hmaintainers⟩
    exact ⟨name, (validName_iff.mp hname).2.1.trans (by decide), _, by rw [append_assoc], (),
      hname, policy, ⟨⟨hvalid.length_pos, hvalid.length_le⟩, hmaintainers⟩, rest, rfl, (),
      validPolicy_ok.mpr hvalid, rfl, rfl⟩

/-- The state that a project declares. -/
def genesisState (s : Store) (oracle : IdentityOracle) (projectId : ObjectId) :
    Except ForgeError ProjectState := do
  let genesis ← (s.get projectId).mapError .store
  failIf (genesis.objectType ≠ .custom projectType) .badObject
  failIf (¬ authorVerified oracle genesis) .badObject
  let bytes ← publicBytes genesis
  let (name, policy) ← whole genesisPayload .badObject bytes
  return ⟨name, policy, [], projectId, 0, false⟩

/-- One round of the loop: the state after the next entry, or none when the chain ends. -/
def step (s : Store) (oracle : IdentityOracle) (projectId : ObjectId) (st : ProjectState) :
    Except ForgeError (Option ProjectState) := do
  let valid ← validEntries s oracle projectId st.policy st.tip
  match winner valid with
  | none   => return none
  | some e => do
    let (policy, branches) ← applyEntry s e st.policy st.branches
    return some ⟨st.name, policy, branches, e.id, st.entries + 1,
      st.forksDetected || decide (1 < valid.length)⟩

/-- The loop, which stops with an error when it has gone round once too often. -/
def resolveFrom (s : Store) (oracle : IdentityOracle) (projectId : ObjectId) :
    ℕ → ProjectState → Except ForgeError ProjectState
  | 0, _           => .error .fieldTooLarge
  | rounds + 1, st => do
    match ← step s oracle projectId st with
    | none     => return st
    | some st' => resolveFrom s oracle projectId rounds st'

def resolveProject (s : Store) (oracle : IdentityOracle) (projectId : ObjectId) :
    Except ForgeError ProjectState := do
  let st ← genesisState s oracle projectId
  resolveFrom s oracle projectId (maxChainLen + 1) st

end

end Mininet.Forge
