import Mininet.Durable
import Mininet.Lib.Stateful

/-!
# The nonce journal

`DurableCustodySigner` and `DurableFrostSigner` keep one record for every nonce commitment they ever
gave out, each in a file of its own in a directory they hold locked. A record is written before its
commitment is returned and burned before a share is computed, and opening the directory burns what
was left open. The two signers differ in the key, in the signing scheme and in how a commitment is
recorded; `SignerKind` is what they differ in, and the calls are written once over it.
-/

namespace Mininet.Signing

open Codec Fallible Stateful List

/-- How a call of a signer fails: the journal, the random source, or the signing scheme. -/
inductive SignerError (ε : Type) where
  | journal (reason : String)
  | entropy
  | signing (error : ε)
  deriving DecidableEq

/-- What a failed call of the operating system is reported as. -/
def SignerError.os {ε : Type} : SignerError ε := .journal "os error"

/-! ### Records -/

/-- The record of a commitment, kept in the form `γ`. -/
structure NonceRecord (γ : Type) where
  signer : Hash
  instanceId : Hash
  commitment : γ
  burned : Bool
  transcript : Hash

/-- How a signer lays out its records: what is checked of the bytes first, the commitment's place in
the middle, and what is checked of it last. -/
structure RecordFormat (ε γ : Type) where
  domain : Bytes
  admits : Bytes → Bool
  inadmissible : String
  commitmentBytes : γ → Bytes
  readCommitment : Reader (SignerError ε) γ
  wellFormed : γ → Bool
  malformed : String

namespace RecordFormat

variable {ε γ : Type} (format : RecordFormat ε γ)

def fieldBytes (r : NonceRecord γ) : Bytes :=
  r.signer.bytes ++ (r.instanceId.bytes ++ (format.commitmentBytes r.commitment ++
    ([if r.burned then 1 else 0] ++ r.transcript.bytes)))

def readBurned : Reader (SignerError ε) Bool := do
  let status ← word (.journal "truncated nonce burned flag") UInt8
  lift (if status = 0 then .ok false else if status = 1 then .ok true
    else .error (.journal "invalid nonce record status"))

def readFields : Reader (SignerError ε) (NonceRecord γ) := do
  let signer ← Hash.read (.journal "truncated nonce journal record")
  let instanceId ← Hash.read (.journal "truncated nonce journal record")
  let commitment ← format.readCommitment
  let burned ← readBurned
  let transcript ← Hash.read (.journal "truncated nonce journal record")
  pure { signer, instanceId, commitment, burned, transcript }

variable [Primitives]

/-- The domain and the fields, and a checksum over both. -/
def encode (r : NonceRecord γ) : Bytes :=
  format.domain ++ format.fieldBytes r ++ (blake3 (format.domain ++ format.fieldBytes r)).bytes

def decode (bytes : Bytes) : Except (SignerError ε) (NonceRecord γ) := do
  failIf (format.admits bytes = false ∨ ¬ format.domain <+: bytes) (.journal format.inadmissible)
  let content := bytes.take (bytes.length - 32)
  failIf ((blake3 content).bytes ≠ bytes.drop (bytes.length - 32))
    (.journal "nonce journal checksum mismatch")
  let record ← whole format.readFields (.journal "trailing bytes in nonce journal record")
    (content.drop format.domain.length)
  failIf (record.burned = false ∧ record.transcript ≠ .zero) (.journal "invalid nonce record fields")
  failIf (format.wellFormed record.commitment = false) (.journal format.malformed)
  pure record

/-- The commitments that read back from a record are those that fit, and a record holds its domain
and its checksum. -/
structure Lawful (Fits : γ → Prop) : Prop where
  decodes : Decodes format.readCommitment format.commitmentBytes Fits
  length_of_admits : ∀ {bytes : Bytes}, format.admits bytes = true →
    format.domain.length + 32 ≤ bytes.length

variable {format} {Fits : γ → Prop}

omit [Primitives] in
lemma decodes_readBurned : Decodes (readBurned : Reader (SignerError ε) Bool)
    (fun burned => [if burned then 1 else 0]) fun _ => True := by
  intro bs burned rest
  rw [readBurned, (decodes_word _ UInt8).bind]
  constructor
  · rintro ⟨status, -, mid, rfl, h⟩
    obtain ⟨hstatus, rfl⟩ := run_lift_ok.mp h
    rw [toBeBytes_byte]
    split_ifs at hstatus with hzero hone
    · cases hstatus
      exact ⟨by rw [hzero]; rfl, trivial⟩
    · cases hstatus
      exact ⟨by rw [hone]; rfl, trivial⟩
  · rintro ⟨rfl, -⟩
    refine ⟨if burned then 1 else 0, trivial, rest, by rw [toBeBytes_byte], ?_⟩
    refine run_lift_ok.mpr ⟨?_, rfl⟩
    cases burned <;> rfl

omit [Primitives] in
lemma Lawful.decodes_readFields (h : format.Lawful Fits) :
    Decodes format.readFields format.fieldBytes fun r => Fits r.commitment := by
  intro bs r rest
  simp only [readFields, (Hash.decodes_read _).bind, h.decodes.bind, decodes_readBurned.bind,
    run_pure_ok, fieldBytes]
  constructor
  · rintro ⟨signer, -, _, rfl, instanceId, -, _, rfl, commitment, hfits, _, rfl, burned, -, _, rfl,
      transcript, -, _, rfl, rfl, rfl⟩
    exact ⟨by simp only [append_assoc], hfits⟩
  · rintro ⟨rfl, hfits⟩
    refine ⟨r.signer, trivial, _, by simp only [append_assoc], r.instanceId, trivial, _, rfl,
      r.commitment, hfits, _, rfl, r.burned, trivial, _, rfl, r.transcript, trivial, rest, rfl, rfl,
      rfl⟩

/-- What decodes is the encoding of what it decodes to. -/
lemma Lawful.encode_of_decode (h : format.Lawful Fits) {bytes : Bytes} {r : NonceRecord γ}
    (hdecode : format.decode bytes = .ok r) : format.encode r = bytes ∧ Fits r.commitment := by
  rw [decode, failIf_bind_ok] at hdecode
  simp only [↓failIf_bind_ok, bind_ok] at hdecode
  obtain ⟨hadmits, hchecksum, record, hwhole, -, -, hdecode⟩ := hdecode
  cases hdecode
  obtain ⟨hfields, hfits⟩ := h.decodes_readFields.whole_ok.mp hwhole
  rw [not_or, Bool.not_eq_false, not_not] at hadmits
  have hlength := h.length_of_admits hadmits.1
  have hdomain : format.domain <+: bytes.take (bytes.length - 32) :=
    prefix_take_iff.mpr ⟨hadmits.2, by omega⟩
  have hcontent : format.domain ++ format.fieldBytes r = bytes.take (bytes.length - 32) := by
    rw [← hfields]
    exact prefix_iff_eq_append.mp hdomain
  refine ⟨?_, hfits⟩
  rw [encode, hcontent, not_not.mp hchecksum, take_append_drop]

lemma Lawful.encode_inj (h : format.Lawful Fits) {r s : NonceRecord γ} (hr : Fits r.commitment)
    (hs : Fits s.commitment) (heq : format.encode r = format.encode s) : r = s := by
  have hcontent := (append_inj' heq (by simp)).1
  have hfields := append_cancel_left hcontent
  have hread := h.decodes_readFields.reads hr []
  rw [hfields, h.decodes_readFields.reads hs []] at hread
  cases hread
  rfl

end RecordFormat

/-! ### The directory -/

inductive JournalFile where
  | binding
  | nonce (name : Hash)
  deriving DecidableEq

abbrev Files := JournalFile → Option Bytes

/-- What a listing of the directory shows. Temporary files are those of replacements that did not
end; any other file, a nonce file under a name that is no digest included, is foreign. -/
inductive Entry where
  | binding
  | lock
  | temporary
  | nonce (name : Hash)
  | foreign

/-- Read a file of at most `limit` bytes. -/
def readJournalFile {ε : Type} (readable : JournalFile → Bool) (files : Files) (path : JournalFile)
    (limit : ℕ) : Except (SignerError ε) Bytes := do
  failIf (readable path = false) .os
  let bytes ← okOr (files path) .os
  failIf (limit < bytes.length) (.journal "journal must be a bounded regular file")
  pure bytes

lemma readJournalFile_ok {ε : Type} {readable : JournalFile → Bool} {files : Files}
    {path : JournalFile} {limit : ℕ} {bytes : Bytes}
    (h : readJournalFile readable files path limit = (.ok bytes : Except (SignerError ε) Bytes)) :
    files path = some bytes := by
  obtain ⟨-, h⟩ := failIf_bind_ok.mp h
  obtain ⟨found, hfound, h⟩ := bind_ok.mp h
  obtain ⟨-, h⟩ := failIf_bind_ok.mp h
  cases h
  exact okOr_ok.mp hfound

/-! ### Signers -/

def maxDurableNonceRecords : ℕ := 100000

/-- What the two signers differ in: keys `κ`, randomness `ρ`, nonces `ν`, commitments `μ` recorded
as `γ`, signing packages `π` and shares `σ`. -/
structure SignerKind (ε κ ρ ν μ γ π σ : Type) where
  format : RecordFormat ε γ
  recordLimit : ℕ
  /-- What the name of a record's file is the digest of. -/
  nameBytes : Hash → γ → Bytes
  accepts : κ → Except (SignerError ε) Unit
  manifest : κ → Except (SignerError ε) Bytes
  bindingLimit : ℕ
  round1Commit : κ → ρ → Except (SignerError ε) (ν × μ)
  recorded : μ → Except (SignerError ε) γ
  transcriptDigest : π → Hash
  round2Sign : κ → ν → π → Except (SignerError ε) σ

/-- An open signer. -/
structure DurableSigner (κ : Type) where
  key : κ
  binding : Hash
  instanceId : Hash
  recordCount : ℕ
  poisoned : Bool

/-- The nonces of a reserved commitment. They are moved into the call that signs with them. -/
structure DurableSigningNonces (ν γ : Type) where
  nonces : ν
  record : NonceRecord γ

/-- How the operating system answers while a directory is opened: its listing in some order, what
can be read, whether it says which files exist, how the replacements end, and the random token. -/
structure OpenAnswers where
  locked : Bool
  listing : Option (List Entry)
  readable : JournalFile → Bool
  existsKnown : Bool
  create : Replacement
  establish : Replacement
  burn : Hash → Replacement
  random32 : Option Hash

/-- How the operating system answers during a call of an open signer. -/
structure CallAnswers where
  readable : JournalFile → Bool
  existsKnown : Bool
  write : Replacement

namespace SignerKind

variable [Primitives] {ε κ ρ ν μ γ π σ : Type} (kind : SignerKind ε κ ρ ν μ γ π σ)

/-- The file of a record. -/
def path (r : NonceRecord γ) : JournalFile := .nonce (blake3 (kind.nameBytes r.signer r.commitment))

/-- Go through a listing, of which `entries` came before, and read the records. -/
def readEntries (binding : Hash) (readable : JournalFile → Bool) (files : Files) :
    ℕ → List Entry → Except (SignerError ε) (List (NonceRecord γ) × ℕ)
  | entries, []            => pure ([], entries)
  | entries, entry :: rest => do
    failIf (maxDurableNonceRecords + 2 < entries + 1) (.journal "signer journal capacity exceeded")
    match entry with
    | .nonce name => do
      let bytes ← readJournalFile readable files (.nonce name) kind.recordLimit
      let record ← kind.format.decode bytes
      failIf (record.signer ≠ binding ∨ kind.path record ≠ .nonce name)
        (.journal "nonce record does not bind this signer/commitment")
      let (records, entries) ← readEntries binding readable files (entries + 1) rest
      pure (record :: records, entries)
    | .foreign => throw (.journal "unexpected signer journal entry")
    | _ => readEntries binding readable files (entries + 1) rest

/-- Replace a file of the directory. -/
def replace (path : JournalFile) (bytes : Bytes) (outcome : Replacement) :
    InPlace Files (SignerError ε) Unit := do
  modify (outcome.files path bytes)
  check (failIf (outcome ≠ .replaced) .os)

/-- The binding must be there already, or the directory be new. -/
def adopt (manifest : Bytes) (entries : ℕ) (answers : OpenAnswers) :
    InPlace Files (SignerError ε) Unit := do
  let files ← get
  match readJournalFile answers.readable files .binding manifest.length with
  | .ok bytes =>
    check (failIf (bytes ≠ manifest) (.journal "signer identity/share does not match journal"))
  | .error e => do
    check (failIf (answers.existsKnown = false) .os)
    if (files .binding).isSome then throw e
    else
      check (failIf (entries ≠ 1) (.journal "missing binding in nonempty signer journal"))
      replace .binding manifest answers.create

/-- The binding is written in any case: an earlier write of it may have ended with an uncertain
error. -/
def bind (manifest : Bytes) (entries : ℕ) (answers : OpenAnswers) :
    InPlace Files (SignerError ε) Unit := do
  adopt manifest entries answers
  replace .binding manifest answers.establish

/-- Burn the records that are still open. -/
def burnAll (answers : OpenAnswers) : List (NonceRecord γ) → InPlace Files (SignerError ε) Unit
  | []             => pure ()
  | record :: rest => do
    if record.burned = false then
      let burnt := { record with burned := true }
      replace (kind.path burnt) (kind.format.encode burnt)
        (answers.burn (blake3 (kind.nameBytes record.signer record.commitment)))
    burnAll answers rest

def openAt (key : κ) (answers : OpenAnswers) : InPlace Files (SignerError ε) (DurableSigner κ) := do
  check (kind.accepts key)
  check (failIf (answers.locked = false) .os)
  let manifest ← check (kind.manifest key)
  let binding := blake3 manifest
  let files ← get
  let listing ← check (okOr answers.listing .os)
  let (records, entries) ← check (kind.readEntries binding answers.readable files 0 listing)
  bind manifest entries answers
  kind.burnAll answers records
  let instanceId ← check (okOr answers.random32 .entropy)
  pure { key, binding, instanceId, recordCount := records.length, poisoned := false }

/-- An open signer and its directory. -/
structure Held (κ : Type) where
  signer : DurableSigner κ
  files : Files

/-- Fail for good: a poisoned signer has to be opened again. -/
def poison {α : Type} (e : SignerError ε) : InPlace (Held κ) (SignerError ε) α := do
  modify fun held => { held with signer := { held.signer with poisoned := true } }
  throw e

def ready (answers : CallAnswers) : InPlace (Held κ) (SignerError ε) Unit := do
  let held ← get
  check (failIf held.signer.poisoned (.journal "storage outcome uncertain; signer must reopen"))
  match (readJournalFile answers.readable held.files .binding kind.bindingLimit :
      Except (SignerError ε) Bytes) with
  | .ok bytes =>
    if blake3 bytes = held.signer.binding then pure ()
    else poison (.journal "signer manifest disappeared or changed; refusing publication")
  | .error _ => poison (.journal "signer manifest disappeared or changed; refusing publication")

def persist (record : NonceRecord γ) (answers : CallAnswers) :
    InPlace (Held κ) (SignerError ε) Unit := do
  modify fun held => { held with
    files := answers.write.files (kind.path record) (kind.format.encode record) held.files }
  if answers.write ≠ .replaced then poison .os

def commit (rng : ρ) (answers : CallAnswers) :
    InPlace (Held κ) (SignerError ε) (DurableSigningNonces ν γ × μ) := do
  kind.ready answers
  let held ← get
  check (failIf (maxDurableNonceRecords ≤ held.signer.recordCount)
    (.journal "signer journal capacity exceeded"))
  let (nonces, commitment) ← check (kind.round1Commit held.signer.key rng)
  let recorded ← check (kind.recorded commitment)
  let record : NonceRecord γ :=
    { signer := held.signer.binding
      instanceId := held.signer.instanceId
      commitment := recorded
      burned := false
      transcript := .zero }
  check (failIf (answers.existsKnown = false) .os)
  check (failIf (held.files (kind.path record)).isSome
    (.journal "nonce commitment already reserved or burned"))
  kind.persist record answers
  modify fun held =>
    { held with signer := { held.signer with recordCount := held.signer.recordCount + 1 } }
  pure (⟨nonces, record⟩, commitment)

def sign (nonces : DurableSigningNonces ν γ) (package : π) (answers : CallAnswers) :
    InPlace (Held κ) (SignerError ε) σ := do
  kind.ready answers
  let held ← get
  check (failIf (nonces.record.signer ≠ held.signer.binding ∨
    nonces.record.instanceId ≠ held.signer.instanceId)
    (.journal "nonce belongs to a different signer instance"))
  match (readJournalFile answers.readable held.files (kind.path nonces.record) kind.recordLimit :
      Except (SignerError ε) Bytes) with
  | .ok bytes =>
    if bytes = kind.format.encode nonces.record then do
      kind.persist { nonces.record with
        burned := true
        transcript := kind.transcriptDigest package } answers
      check (kind.round2Sign held.signer.key nonces.nonces package)
    else poison (.journal "nonce reservation is corrupt, missing, or burned")
  | .error _ => poison (.journal "nonce reservation is corrupt, missing, or burned")

end SignerKind

/-! ### What each call does -/

/-- A replacement leaves a file alone or is of this file and puts the bytes in place. -/
lemma files_cases (outcome : Replacement) (path : JournalFile) (bytes : Bytes) (files : Files)
    (file : JournalFile) :
    outcome.files path bytes files file = files file ∨
      file = path ∧ outcome.files path bytes files file = some bytes := by
  by_cases hfile : file = path
  · subst hfile
    rcases outcome with _ | _ | _ <;> simp [Replacement.files]
  · left
    rcases outcome with _ | _ | _ <;> simp [Replacement.files, Function.update_of_ne hfile]

@[simp] lemma files_replaced (path : JournalFile) (bytes : Bytes) (files : Files) :
    Replacement.replaced.files path bytes files = Function.update files path (some bytes) := rfl

namespace SignerKind

variable [Primitives] {ε κ ρ ν μ γ π σ : Type} {kind : SignerKind ε κ ρ ν μ γ π σ}

variable {files files' : Files} {r : Except (SignerError ε) Unit} {Fits : γ → Prop}
  {records : List (NonceRecord γ)} {answers : OpenAnswers} {held held' : Held κ}
  {record : NonceRecord γ} {path : JournalFile} {manifest : Bytes} {entries : ℕ}

omit [Primitives] in
lemma replace_cases {bytes : Bytes} {outcome : Replacement}
    (h : (replace path bytes outcome).on files = (r, files')) :
    files' = outcome.files path bytes files ∧ (r = .ok () → outcome = .replaced) := by
  rw [replace, on_modify_bind, on_check, Prod.mk.injEq] at h
  refine ⟨h.2.symm, fun hr => ?_⟩
  rw [hr, failIf_ok, not_not] at h
  exact h.1

/-- The records are those of the listed files, each under its own name. -/
lemma readEntries_ok (hformat : kind.format.Lawful Fits) {binding : Hash}
    {readable : JournalFile → Bool} {listing : List Entry} {n m : ℕ}
    (h : kind.readEntries binding readable files n listing = .ok (records, m)) :
    (∀ r ∈ records, Fits r.commitment ∧ files (kind.path r) = some (kind.format.encode r)) ∧
      ∀ name, Entry.nonce name ∈ listing → ∃ r ∈ records, kind.path r = .nonce name := by
  induction listing generalizing n records with
  | nil =>
    cases h
    simp
  | cons entry rest ih =>
    obtain ⟨-, h⟩ := failIf_bind_ok.mp h
    cases entry with
    | nonce name =>
      simp only [↓failIf_bind_ok, bind_ok] at h
      obtain ⟨bytes, hbytes, record, hrecord, hname, ⟨others, entries⟩, hothers, h⟩ := h
      cases h
      obtain ⟨hread, hlisted⟩ := ih hothers
      obtain ⟨hencode, hfits⟩ := hformat.encode_of_decode hrecord
      rw [not_or, not_not, not_not] at hname
      refine ⟨forall_mem_cons.mpr ⟨⟨hfits, ?_⟩, hread⟩, fun other hother => ?_⟩
      · rw [hname.2, hencode, readJournalFile_ok hbytes]
      · rcases mem_cons.mp hother with heq | hrest
        · cases heq
          exact ⟨record, mem_cons_self, hname.2⟩
        · obtain ⟨r, hr, hpath⟩ := hlisted other hrest
          exact ⟨r, mem_cons_of_mem _ hr, hpath⟩
    | foreign => cases h
    | binding | lock | temporary => simpa using ih h

/-- What burning may do to a file: nothing, or put the burned form of an open record there. -/
def Burnt (kind : SignerKind ε κ ρ ν μ γ π σ) (records : List (NonceRecord γ)) (files files' : Files)
    (path : JournalFile) : Prop :=
  files' path = files path ∨ ∃ record ∈ records, record.burned = false ∧ path = kind.path record ∧
    files' path = some (kind.format.encode { record with burned := true })

lemma Burnt.cons (h : kind.Burnt records files files' path) :
    kind.Burnt (record :: records) files files' path := by
  rcases h with heq | ⟨other, hother, h⟩
  · exact .inl heq
  · exact .inr ⟨other, mem_cons_of_mem _ hother, h⟩

/-- Burning touches the files of open records only, and a loop that ends leaves none open. -/
lemma burnAll_cases (h : (kind.burnAll answers records).on files = (r, files')) :
    (∀ path, kind.Burnt records files files' path) ∧
      (r = .ok () → ∀ record ∈ records, record.burned = false → ∃ other ∈ records,
        files' (kind.path record) = some (kind.format.encode { other with burned := true })) := by
  induction records generalizing files with
  | nil =>
    cases h
    exact ⟨fun path => .inl rfl, by simp⟩
  | cons record rest ih =>
    by_cases hburned : record.burned = false
    · rw [burnAll, if_pos hburned] at h
      rcases on_bind_eq.mp h with ⟨e, hreplace, rfl⟩ | ⟨_, mid, hreplace, h⟩
      · obtain ⟨rfl, -⟩ := replace_cases hreplace
        refine ⟨fun path => ?_, by simp⟩
        rcases files_cases _ _ _ files path with heq | ⟨hpath, hfile⟩
        · exact .inl heq
        · exact .inr ⟨record, mem_cons_self, hburned, hpath, hfile⟩
      · obtain ⟨hmid, hdone⟩ := replace_cases hreplace
        rw [hdone rfl, files_replaced] at hmid
        obtain ⟨hrest, hall⟩ := ih h
        have hpaths : ∀ path, kind.Burnt (record :: rest) files files' path := by
          intro path
          rcases hrest path with heq | ⟨other, hother, hopen, hpath, hfile⟩
          · by_cases hpath : path = kind.path record
            · refine .inr ⟨record, mem_cons_self, hburned, hpath, ?_⟩
              rw [heq, hmid, hpath]
              exact Function.update_self _ _ _
            · left
              rw [heq, hmid]
              exact Function.update_of_ne hpath _ _
          · exact .inr ⟨other, mem_cons_of_mem _ hother, hopen, hpath, hfile⟩
        refine ⟨hpaths, fun hr => forall_mem_cons.mpr ⟨fun _ => ?_, ?_⟩⟩
        · rcases hrest (kind.path record) with heq | ⟨other, hother, -, -, hfile⟩
          · refine ⟨record, mem_cons_self, ?_⟩
            rw [heq, hmid]
            exact Function.update_self _ _ _
          · exact ⟨other, mem_cons_of_mem _ hother, hfile⟩
        · intro next hnext hopen
          obtain ⟨other, hother, hfile⟩ := hall hr next hnext hopen
          exact ⟨other, mem_cons_of_mem _ hother, hfile⟩
    · rw [burnAll, if_neg hburned] at h
      obtain ⟨hrest, hall⟩ := ih h
      refine ⟨fun path => (hrest path).cons, fun hr => forall_mem_cons.mpr
        ⟨fun hopen => absurd hopen hburned, ?_⟩⟩
      intro next hnext hopen
      obtain ⟨other, hother, hfile⟩ := hall hr next hnext hopen
      exact ⟨other, mem_cons_of_mem _ hother, hfile⟩

omit [Primitives] in
lemma adopt_cases (h : (adopt manifest entries answers).on files = (r, files')) :
    (files' = files ∨ files .binding = none ∧
        files' = answers.create.files .binding manifest files) ∧
      (r = .ok () → files' .binding = some manifest) := by
  rw [adopt, on_get_bind] at h
  rcases hread : (readJournalFile answers.readable files .binding manifest.length :
    Except (SignerError ε) Bytes) with e | bytes
  · rw [hread] at h
    rcases on_check_bind.mp h with ⟨e, -, rfl, rfl⟩ | ⟨-, -, h⟩
    · exact ⟨.inl rfl, by simp⟩
    split_ifs at h with hfound
    · cases h
      exact ⟨.inl rfl, by simp⟩
    · have hnone : files .binding = none := by simpa using hfound
      rcases on_check_bind.mp h with ⟨e, -, rfl, rfl⟩ | ⟨-, -, h⟩
      · exact ⟨.inl rfl, by simp⟩
      obtain ⟨hfiles, hdone⟩ := replace_cases h
      refine ⟨.inr ⟨hnone, hfiles⟩, fun hr => ?_⟩
      rw [hfiles, hdone hr, files_replaced, Function.update_self]
  · rw [hread] at h
    cases h
    refine ⟨.inl rfl, fun hr => ?_⟩
    rw [readJournalFile_ok hread, not_not.mp (failIf_ok.mp hr)]

omit [Primitives] in
/-- The binding is written where there was none, a call that passes leaves it in place, and no
record is touched. -/
lemma bind_cases (h : (bind manifest entries answers).on files = (r, files')) :
    (∀ name, files' (.nonce name) = files (.nonce name)) ∧
      (files' .binding = files .binding ∨ files .binding = none) ∧
      (r = .ok () → files' .binding = some manifest) := by
  have hkept : ∀ (outcome : Replacement) (files : Files) (name : Hash),
      outcome.files .binding manifest files (.nonce name) = files (.nonce name) :=
    fun outcome files name => (files_cases _ _ _ _ _).resolve_right (by simp)
  rcases on_bind_eq.mp h with ⟨e, hadopt, rfl⟩ | ⟨_, mid, hadopt, hestablish⟩
  · obtain ⟨rfl | ⟨hnone, rfl⟩, -⟩ := adopt_cases hadopt
    · exact ⟨fun name => rfl, .inl rfl, by simp⟩
    · exact ⟨hkept _ _, .inr hnone, by simp⟩
  · obtain ⟨hmid, hbound⟩ := adopt_cases hadopt
    obtain ⟨rfl, -⟩ := replace_cases hestablish
    have hmanifest : answers.establish.files .binding manifest mid .binding = some manifest := by
      rcases files_cases answers.establish .binding manifest mid .binding with heq | ⟨-, heq⟩
      · rw [heq, hbound rfl]
      · exact heq
    refine ⟨fun name => ?_, ?_, fun _ => hmanifest⟩
    · rcases hmid with rfl | ⟨-, rfl⟩
      · exact hkept _ _ name
      · exact (hkept _ _ name).trans (hkept _ _ name)
    · rcases hmid with rfl | ⟨hnone, -⟩
      · exact .inl (hmanifest.trans (hbound rfl).symm)
      · exact .inr hnone

/-- What opening a directory does to it, whether or not it ends well: open records may be burned and
a missing binding written. A signer that is returned stands on its binding, and all records in the
directory are burned. -/
structure Opens (kind : SignerKind ε κ ρ ν μ γ π σ) (Fits : γ → Prop) (files files' : Files)
    (r : Except (SignerError ε) (DurableSigner κ)) : Prop where
  nonces : ∀ name, files' (.nonce name) = files (.nonce name) ∨ ∃ record, Fits record.commitment ∧
    files (.nonce name) = some (kind.format.encode record) ∧
    files' (.nonce name) = some (kind.format.encode { record with burned := true })
  binding : files' .binding = files .binding ∨ files .binding = none
  bound : ∀ signer, r = .ok signer →
    ∃ manifest, files' .binding = some manifest ∧ blake3 manifest = signer.binding
  burned : ∀ signer, r = .ok signer → ∀ name bytes, files' (.nonce name) = some bytes →
    ∃ record, Fits record.commitment ∧ record.burned = true ∧ bytes = kind.format.encode record

lemma Opens.refused (files : Files) (e : SignerError ε) :
    kind.Opens Fits files files (.error e) where
  nonces _ := .inl rfl
  binding := .inl rfl
  bound := nofun
  burned := nofun

/-- Burning the records of a directory, seen from before the binding was written. -/
lemma burnAll_opens {mid : Files}
    (hread : ∀ r ∈ records, Fits r.commitment ∧ files (kind.path r) = some (kind.format.encode r))
    (hnonces : ∀ name, mid (.nonce name) = files (.nonce name))
    (h : (kind.burnAll answers records).on mid = (r, files')) : files' .binding = mid .binding ∧
      ∀ name, files' (.nonce name) = files (.nonce name) ∨ ∃ record, Fits record.commitment ∧
        files (.nonce name) = some (kind.format.encode record) ∧
        files' (.nonce name) = some (kind.format.encode { record with burned := true }) := by
  obtain ⟨hburnt, -⟩ := burnAll_cases h
  refine ⟨(hburnt .binding).resolve_right (by simp [path]), fun name => ?_⟩
  rcases hburnt (.nonce name) with heq | ⟨record, hrecord, -, hpath, hfile⟩
  · exact .inl (heq.trans (hnonces name))
  · obtain ⟨hfits, hstored⟩ := hread record hrecord
    exact .inr ⟨record, hfits, hpath ▸ hstored, hfile⟩

/-- The listing shows every record in the directory. -/
def OpenAnswers.Lists (answers : OpenAnswers) (files : Files) : Prop :=
  ∀ listing, answers.listing = some listing → ∀ name, (files (.nonce name)).isSome →
    Entry.nonce name ∈ listing

lemma openAt_opens (hformat : kind.format.Lawful Fits) {key : κ}
    {r : Except (SignerError ε) (DurableSigner κ)} (hlists : OpenAnswers.Lists answers files)
    (h : (kind.openAt key answers).on files = (r, files')) : kind.Opens Fits files files' r := by
  rw [openAt] at h
  rcases on_check_bind.mp h with ⟨e, -, rfl, rfl⟩ | ⟨-, -, h⟩
  · exact .refused _ _
  rcases on_check_bind.mp h with ⟨e, -, rfl, rfl⟩ | ⟨-, -, h⟩
  · exact .refused _ _
  rcases on_check_bind.mp h with ⟨e, -, rfl, rfl⟩ | ⟨manifest, -, h⟩
  · exact .refused _ _
  rw [on_get_bind] at h
  rcases on_check_bind.mp h with ⟨e, -, rfl, rfl⟩ | ⟨listing, hlisting, h⟩
  · exact .refused _ _
  rcases on_check_bind.mp h with ⟨e, -, rfl, rfl⟩ | ⟨⟨records, entries⟩, hrecords, h⟩
  · exact .refused _ _
  obtain ⟨hread, hlisted⟩ := readEntries_ok hformat hrecords
  rcases on_bind_eq.mp h with ⟨e, hbind, rfl⟩ | ⟨_, mid, hbind, h⟩
  · obtain ⟨hnonces, hbinding, -⟩ := bind_cases hbind
    exact ⟨fun name => .inl (hnonces name), hbinding, nofun, nofun⟩
  obtain ⟨hnonces, hbinding, hbound⟩ := bind_cases hbind
  rcases on_bind_eq.mp h with ⟨e, hburn, rfl⟩ | ⟨_, last, hburn, h⟩
  · obtain ⟨hkept, hlast⟩ := burnAll_opens hread hnonces hburn
    exact ⟨hlast, hkept ▸ hbinding, nofun, nofun⟩
  obtain ⟨hkept, hlast⟩ := burnAll_opens hread hnonces hburn
  obtain ⟨hburnt, hall⟩ := burnAll_cases hburn
  have hfiles : files' = last := by
    rcases on_check_bind.mp h with ⟨e, -, -, rfl⟩ | ⟨instanceId, -, h⟩
    · rfl
    · cases h
      rfl
  subst hfiles
  refine ⟨hlast, hkept ▸ hbinding, fun signer hr => ?_, fun signer hr name bytes hbytes => ?_⟩
  · rw [hr] at h
    obtain ⟨instanceId, -, h⟩ := on_check_bind_ok.mp h
    cases h
    exact ⟨manifest, hkept.trans (hbound rfl), rfl⟩
  · rcases hburnt (.nonce name) with heq | ⟨record, hrecord, -, -, hfile⟩
    · rw [hbytes, hnonces] at heq
      obtain ⟨record, hrecord, hpath⟩ := hlisted name
        (hlists listing (okOr_ok.mp hlisting) name (by rw [← heq]; rfl))
      obtain ⟨hfits, hstored⟩ := hread record hrecord
      rcases Bool.eq_false_or_eq_true record.burned with hburned | hopen
      · refine ⟨record, hfits, hburned, ?_⟩
        rw [hpath, ← heq] at hstored
        exact Option.some.inj hstored
      · obtain ⟨other, hother, hfile⟩ := hall rfl record hrecord hopen
        rw [hpath, hbytes] at hfile
        exact ⟨{ other with burned := true }, (hread other hother).1, rfl, Option.some.inj hfile⟩
    · rw [hbytes] at hfile
      exact ⟨{ record with burned := true }, (hread record hrecord).1, rfl, Option.some.inj hfile⟩

/-- The directory holds the manifest the signer was opened with. -/
def Held.Bound (held : Held κ) : Prop :=
  ∃ manifest, held.files .binding = some manifest ∧ blake3 manifest = held.signer.binding

lemma ready_cases {answers : CallAnswers} (h : (kind.ready answers).on held = (r, held')) :
    held'.files = held.files ∧ held'.signer.binding = held.signer.binding ∧
      (r = .ok () → held' = held ∧ held.Bound) := by
  rw [ready, on_get_bind] at h
  rcases on_check_bind.mp h with ⟨e, -, rfl, rfl⟩ | ⟨-, -, h⟩
  · exact ⟨rfl, rfl, by simp⟩
  rcases hread : (readJournalFile answers.readable held.files .binding kind.bindingLimit :
    Except (SignerError ε) Bytes) with e | manifest
  · rw [hread] at h
    cases h
    exact ⟨rfl, rfl, by simp⟩
  · rw [hread] at h
    dsimp only at h
    split_ifs at h with hbinding
    · cases h
      exact ⟨rfl, rfl, fun _ => ⟨rfl, manifest, readJournalFile_ok hread, hbinding⟩⟩
    · cases h
      exact ⟨rfl, rfl, by simp⟩

lemma persist_cases {answers : CallAnswers}
    (h : (kind.persist record answers).on held = (r, held')) : held'.files =
        answers.write.files (kind.path record) (kind.format.encode record) held.files ∧
      held'.signer.binding = held.signer.binding ∧ (r = .ok () → answers.write = .replaced) := by
  rw [persist, on_modify_bind] at h
  split_ifs at h with hwrite
  · cases h
    exact ⟨rfl, rfl, by simp⟩
  · cases h
    exact ⟨rfl, rfl, fun _ => not_not.mp hwrite⟩

/-- A commitment is about to be recorded: it is unburned, by this signer, and under a new name. -/
structure Reserves (kind : SignerKind ε κ ρ ν μ γ π σ) (held : Held κ) (record : NonceRecord γ)
    (commitment : μ) : Prop where
  burned : record.burned = false
  signer : record.signer = held.signer.binding
  recorded : kind.recorded commitment = .ok record.commitment
  fresh : held.files (kind.path record) = none
  bound : held.Bound

/-- Committing writes one new file, and what it returns is in that file. -/
lemma commit_cases {rng : ρ} {answers : CallAnswers}
    {r : Except (SignerError ε) (DurableSigningNonces ν γ × μ)}
    (h : (kind.commit rng answers).on held = (r, held')) :
    held'.signer.binding = held.signer.binding ∧
      ((∃ e, r = .error e) ∧ held'.files = held.files ∨
        ∃ record commitment, kind.Reserves held record commitment ∧
          held'.files =
            answers.write.files (kind.path record) (kind.format.encode record) held.files ∧
          ((∃ e, r = .error e) ∨
            answers.write = .replaced ∧ ∃ nonces, r = .ok (⟨nonces, record⟩, commitment))) := by
  rcases on_bind_eq.mp h with ⟨e, hready, rfl⟩ | ⟨_, mid, hready, hcall⟩
  · obtain ⟨hfiles, hbinding, -⟩ := ready_cases hready
    exact ⟨hbinding, .inl ⟨⟨e, rfl⟩, hfiles⟩⟩
  obtain ⟨rfl, hbound⟩ := (ready_cases hready).2.2 rfl
  rw [on_get_bind] at hcall
  rcases on_check_bind.mp hcall with ⟨e, -, rfl, rfl⟩ | ⟨-, -, h⟩
  · exact ⟨rfl, .inl ⟨⟨e, rfl⟩, rfl⟩⟩
  rcases on_check_bind.mp h with ⟨e, -, rfl, rfl⟩ | ⟨⟨nonces, commitment⟩, -, h⟩
  · exact ⟨rfl, .inl ⟨⟨e, rfl⟩, rfl⟩⟩
  rcases on_check_bind.mp h with ⟨e, -, rfl, rfl⟩ | ⟨recorded, hrecorded, h⟩
  · exact ⟨rfl, .inl ⟨⟨e, rfl⟩, rfl⟩⟩
  rcases on_check_bind.mp h with ⟨e, -, rfl, rfl⟩ | ⟨-, -, h⟩
  · exact ⟨rfl, .inl ⟨⟨e, rfl⟩, rfl⟩⟩
  rcases on_check_bind.mp h with ⟨e, -, rfl, rfl⟩ | ⟨_, hfresh, h⟩
  · exact ⟨rfl, .inl ⟨⟨e, rfl⟩, rfl⟩⟩
  have hreserves : kind.Reserves mid ⟨mid.signer.binding, mid.signer.instanceId, recorded, false,
      .zero⟩ commitment :=
    ⟨rfl, rfl, hrecorded, by simpa using failIf_ok.mp hfresh, hbound⟩
  rcases on_bind_eq.mp h with ⟨e, hpersist, rfl⟩ | ⟨_, last, hpersist, h⟩
  · obtain ⟨hfiles, hbinding, -⟩ := persist_cases hpersist
    exact ⟨hbinding, .inr ⟨_, commitment, hreserves, hfiles, .inl ⟨e, rfl⟩⟩⟩
  · obtain ⟨hfiles, hbinding, hwrite⟩ := persist_cases hpersist
    cases h
    exact ⟨hbinding, .inr ⟨_, commitment, hreserves, hfiles, .inr ⟨hwrite rfl, nonces, rfl⟩⟩⟩

/-- Signing goes past its checks only when the record of the nonces is in the directory unburned,
and then it is burned first. -/
lemma sign_cases {nonces : DurableSigningNonces ν γ} {package : π} {answers : CallAnswers}
    {r : Except (SignerError ε) σ} (h : (kind.sign nonces package answers).on held = (r, held')) :
    held'.signer.binding = held.signer.binding ∧
      ((∃ e, r = .error e) ∧ held'.files = held.files ∨
        held.files (kind.path nonces.record) = some (kind.format.encode nonces.record) ∧
          held'.files = answers.write.files (kind.path nonces.record) (kind.format.encode
            { nonces.record with burned := true, transcript := kind.transcriptDigest package })
            held.files) := by
  rcases on_bind_eq.mp h with ⟨e, hready, rfl⟩ | ⟨_, mid, hready, hcall⟩
  · obtain ⟨hfiles, hbinding, -⟩ := ready_cases hready
    exact ⟨hbinding, .inl ⟨⟨e, rfl⟩, hfiles⟩⟩
  obtain ⟨rfl, -⟩ := (ready_cases hready).2.2 rfl
  rw [on_get_bind] at hcall
  rcases on_check_bind.mp hcall with ⟨e, -, rfl, rfl⟩ | ⟨-, -, h⟩
  · exact ⟨rfl, .inl ⟨⟨e, rfl⟩, rfl⟩⟩
  rcases hread : (readJournalFile answers.readable mid.files (kind.path nonces.record)
    kind.recordLimit : Except (SignerError ε) Bytes) with e | bytes
  · rw [hread] at h
    cases h
    exact ⟨rfl, .inl ⟨⟨_, rfl⟩, rfl⟩⟩
  rw [hread] at h
  dsimp only at h
  split_ifs at h with hbytes
  · have hstored := readJournalFile_ok hread
    rw [hbytes] at hstored
    rcases on_bind_eq.mp h with ⟨e, hpersist, rfl⟩ | ⟨_, last, hpersist, h⟩
    · obtain ⟨hfiles, hbinding, -⟩ := persist_cases hpersist
      exact ⟨hbinding, .inr ⟨hstored, hfiles⟩⟩
    · obtain ⟨hfiles, hbinding, -⟩ := persist_cases hpersist
      cases h
      exact ⟨hbinding, .inr ⟨hstored, hfiles⟩⟩
  · cases h
    exact ⟨rfl, .inl ⟨⟨_, rfl⟩, rfl⟩⟩

end SignerKind

end Mininet.Signing
