import Mininet.Media.Manifest

/-!
# Commits and trees

A commit names a tree, a tree names files and subtrees, all of them objects of the store. A commit
is well formed when all of it can be checked out. What can be checked out of a store can be checked
out of every store that holds more.
-/

namespace Mininet.Forge

open Codec Fallible Identity Objects

/-- Why an operation of the forge failed. -/
inductive ForgeError where
  | fieldTooLarge
  | badName
  | badObject
  | tooDeep
  | timelockActive
  | notEnoughAttestations (needed got : UInt32)
  | artifactUnavailable
  | forkDetected
  | notCanonical
  | badVersion
  | rollbackRejected
  | store (e : StoreError)
  | object (e : ObjectError)
  | media (e : Media.MediaError)
  deriving DecidableEq

def fileType : String := "mini/fblob"

def executableFileType : String := "mini/fblob-exec-v1"

def treeType : String := "mini/tree"

def maxTreeEntries : ℕ := 200

def maxTreeDepth : ℕ := 32

def maxCheckoutFiles : ℕ := 100000

def maxCheckoutBytes : ℕ := 256 * 1024 * 1024

def maxMessageBytes : ℕ := 4096

def maxFilenameBytes : ℕ := 255

/-- A name of at most so many bytes, without separators and not a traversal component. -/
def nameWithin (max : ℕ) (s : String) : Bool :=
  s ≠ "" && (utf8 s).length ≤ max && (utf8 s).all nameByte && s ≠ "." && s ≠ ".."

def fileNameIsWellFormed (s : String) : Bool := nameWithin maxFilenameBytes s

def validName (s : String) : Bool := nameWithin 64 s

lemma validName_iff {s : String} : validName s = true ↔
    s ≠ "" ∧ (utf8 s).length ≤ 64 ∧ (utf8 s).all nameByte = true ∧ s ≠ "." ∧ s ≠ ".." := by
  simp [validName, nameWithin, and_assoc]

/-- Read a text behind its length. -/
def takeStr : Reader ForgeError String := do
  let bytes ← readFramed .badObject .badObject UInt32 4096
  lift (okOr (ofUtf8 bytes) .badObject)

lemma decodes_takeStr :
    Decodes takeStr (fun s => framed UInt32 (utf8 s)) fun s => (utf8 s).length ≤ 4096 := by
  intro bs s rest
  rw [takeStr, (decodes_readFramed _ _ _ (by decide)).bind]
  simp only [run_lift_ok, okOr_ok]
  constructor
  · rintro ⟨bytes, hle, mid, rfl, hs, rfl⟩
    rw [← utf8_of_ofUtf8 hs] at hle ⊢
    exact ⟨rfl, hle⟩
  · rintro ⟨rfl, hle⟩
    exact ⟨utf8 s, hle, rest, rfl, ofUtf8_utf8 s, rfl⟩

/-! ### Trees -/

structure TreeEntry where
  name : String
  isDir : Bool
  target : ObjectId
  deriving DecidableEq

/-- The bytes of a payload that is not encrypted. -/
def publicBytes (o : Object) : Except ForgeError Bytes :=
  match o.payload with
  | .pub bytes   => .ok bytes
  | .encrypted _ => .error .badObject

lemma publicBytes_ok {o : Object} {bytes : Bytes} :
    publicBytes o = .ok bytes ↔ o.payload = .pub bytes := by
  rw [publicBytes]
  split <;> simp [*]

section Trees

variable [KeyPrimitives]

/-- Read entries whose names ascend. -/
def readEntries : ℕ → Option String → Reader ForgeError (List TreeEntry)
  | 0, _        => pure []
  | n + 1, prev => do
    let flag ← word .badObject UInt8
    lift (failIf (flag ≠ 0 ∧ flag ≠ 1) .badObject)
    let name ← takeStr
    lift (failIf (¬ fileNameIsWellFormed name) .badObject)
    lift (failIf (∃ before ∈ prev, name ≤ before) .badObject)
    let idStr ← takeStr
    let target ← lift ((ObjectId.parse idStr).mapError .object)
    let entries ← readEntries n (some name)
    return ⟨name, flag == 1, target⟩ :: entries

def readTree (o : Object) : Except ForgeError (List TreeEntry) := do
  failIf (o.objectType ≠ .custom treeType) .badObject
  let bytes ← publicBytes o
  whole (do
    let n ← readCount .badObject .badObject UInt32 maxTreeEntries
    readEntries n none) .badObject bytes

/-- What a checkout may still take, and the trees it is inside of. -/
structure Budget where
  files : ℕ
  bytes : ℕ
  seen : List String

/-- The files of a checkout: path, bytes and whether it is executable. -/
abbrev Files := List (String × Bytes × Bool)

def takeFile (s : Store) (path : String) (target : ObjectId) (taken : Files × Budget) :
    Except ForgeError (Files × Budget) := do
  let (out, budget) := taken
  let blob ← (s.get target).mapError .store
  let executable := blob.objectType = .custom executableFileType
  failIf (¬ executable ∧ blob.objectType ≠ .custom fileType) .badObject
  let bytes ← publicBytes blob
  failIf (budget.files = 0 ∨ budget.bytes < bytes.length) .fieldTooLarge
  return (out ++ [(path, bytes, decide executable)],
    { budget with files := budget.files - 1, bytes := budget.bytes - bytes.length })

/-- Take the files of a tree. The first argument is how many levels there may still be. -/
def walk (s : Store) : ℕ → ObjectId → String → Files × Budget →
    Except ForgeError (Files × Budget)
  | 0, _, _, _                         => .error .tooDeep
  | levels + 1, treeId, above, (out, budget) => do
    failIf (treeId.asStr ∈ budget.seen) .badObject
    let tree ← (s.get treeId).mapError .store
    let entries ← readTree tree
    let (out, budget) ← entries.foldlM (fun taken e =>
      let path := if above = "" then e.name else above ++ "/" ++ e.name
      if e.isDir then walk s levels e.target path taken else takeFile s path e.target taken)
      (out, { budget with seen := treeId.asStr :: budget.seen })
    return (out, { budget with seen := budget.seen.tail })

/-- One link of a commit: the tree once, and parents that are different. -/
def commitLink (found : Option ObjectId × List ObjectId) (l : Link) :
    Except ForgeError (Option ObjectId × List ObjectId) :=
  if l.rel = "tree" ∧ found.1 = none then .ok (some l.target, found.2)
  else if l.rel = "parent" ∧ l.target ∉ found.2 then .ok (found.1, found.2 ++ [l.target])
  else .error .badObject

omit [KeyPrimitives] in
def validatedCommitTree (commit : Object) : Except ForgeError ObjectId := do
  failIf (commit.objectType ≠ .commit) .badObject
  let message ← publicBytes commit
  failIf (maxMessageBytes < message.length) .badObject
  let (tree, parents) ← commit.links.foldlM commitLink (none, [])
  let tree ← okOr tree .badObject
  failIf (tree ∈ parents) .badObject
  return tree

def checkoutWithModes (s : Store) (commitId : ObjectId) : Except ForgeError Files := do
  let commit ← (s.get commitId).mapError .store
  let tree ← validatedCommitTree commit
  let (out, _) ← walk s (maxTreeDepth + 1) tree "" ([], ⟨maxCheckoutFiles, maxCheckoutBytes, []⟩)
  return out

def checkout (s : Store) (commitId : ObjectId) : Except ForgeError (List (String × Bytes)) :=
  (checkoutWithModes s commitId).map fun files => files.map fun (path, bytes, _) => (path, bytes)

def commitIsWellFormed (s : Store) (commit : Object) : Bool :=
  commit.objectType = .commit && (checkout s commit.id).isOk

/-! ### Stores that hold more -/

/-- A store holds every object that another holds. -/
def Holds (s' s : Store) : Prop := ∀ id o, s.get id = .ok o → s'.get id = .ok o

variable {s s' : Store} {taken taken' : Files × Budget}

lemma Holds.mapError_get (h : Holds s' s) {id : ObjectId} {o : Object}
    (hget : (s.get id).mapError ForgeError.store = .ok o) :
    (s'.get id).mapError ForgeError.store = .ok o :=
  mapError_ok.mpr (h id o (mapError_ok.mp hget))

lemma Holds.takeFile (h : Holds s' s) {path : String} {target : ObjectId}
    (htake : takeFile s path target taken = .ok taken') :
    takeFile s' path target taken = .ok taken' := by
  obtain ⟨blob, hblob, htake⟩ := bind_ok.mp htake
  exact bind_ok.mpr ⟨blob, h.mapError_get hblob, htake⟩

lemma Holds.walk (h : Holds s' s) {levels : ℕ} {treeId : ObjectId} {above : String}
    (hwalk : walk s levels treeId above taken = .ok taken') :
    walk s' levels treeId above taken = .ok taken' := by
  induction levels generalizing treeId above taken taken' with
  | zero => cases hwalk
  | succ levels ih =>
    obtain ⟨out, budget⟩ := taken
    obtain ⟨hseen, hwalk⟩ := failIf_bind_ok.mp hwalk
    obtain ⟨tree, htree, hwalk⟩ := bind_ok.mp hwalk
    obtain ⟨entries, hentries, hwalk⟩ := bind_ok.mp hwalk
    obtain ⟨mid, hfold, hwalk⟩ := bind_ok.mp hwalk
    refine failIf_bind_ok.mpr ⟨hseen, bind_ok.mpr ⟨tree, h.mapError_get htree, ?_⟩⟩
    refine bind_ok.mpr ⟨entries, hentries, bind_ok.mpr ⟨mid, ?_, hwalk⟩⟩
    refine foldlM_mono (fun taken e _ taken' htaken => ?_) hfold
    dsimp only at htaken ⊢
    cases hdir : e.isDir with
    | true =>
      rw [hdir, if_pos rfl] at htaken
      rw [if_pos rfl]
      exact ih htaken
    | false =>
      rw [hdir, if_neg Bool.false_ne_true] at htaken
      rw [if_neg Bool.false_ne_true]
      exact h.takeFile htaken

lemma Holds.commitIsWellFormed (h : Holds s' s) {commit : Object}
    (hcommit : commitIsWellFormed s commit = true) : commitIsWellFormed s' commit = true := by
  obtain ⟨htype, hcheckout⟩ := Bool.and_eq_true_iff.mp hcommit
  obtain ⟨files, hfiles⟩ := isOk_iff_exists.mp hcheckout
  obtain ⟨rows, hrows, hmap⟩ := map_ok.mp hfiles
  obtain ⟨o, ho, hrows⟩ := bind_ok.mp hrows
  obtain ⟨tree, htree, hrows⟩ := bind_ok.mp hrows
  obtain ⟨taken, htaken, hrows⟩ := bind_ok.mp hrows
  refine Bool.and_eq_true_iff.mpr ⟨htype, isOk_iff_exists.mpr ⟨files, map_ok.mpr ⟨rows, ?_, hmap⟩⟩⟩
  exact bind_ok.mpr ⟨o, h.mapError_get ho, bind_ok.mpr ⟨tree, htree,
    bind_ok.mpr ⟨taken, h.walk htaken, hrows⟩⟩⟩

end Trees

end Mininet.Forge
