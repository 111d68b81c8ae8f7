import Mininet.Signing.Journal

/-!
# Runs of a signer over one directory

A process opens the directory, commits, signs, drops nonces, closes the signer and opens it again;
at any moment it may die, and with it the signer and all nonces in memory. A process that dies
inside a call has made the call's writes up to some point, the last of them perhaps with the new
content in place and perhaps not, which is a call whose write failed, followed by the death.
-/

namespace Mininet.Signing

open Fallible Stateful SignerKind List

/-- Nonces in memory, and which opening of the directory they come from. -/
structure Handle (ν γ : Type) where
  opening : ℕ
  nonces : DurableSigningNonces ν γ

/-- A commitment that was returned, and its record. -/
structure Publication (μ γ : Type) where
  commitment : μ
  record : NonceRecord γ

/-- A share that was computed: the record of its nonces, the opening they come from, and the opening
of the signer that used them. -/
structure Share (γ σ : Type) where
  record : NonceRecord γ
  issued : ℕ
  signed : ℕ
  value : σ

structure World (κ ν μ γ σ : Type) where
  files : Files
  signer : Option (DurableSigner κ)
  openings : ℕ
  handles : List (Handle ν γ)
  published : List (Publication μ γ)
  shares : List (Share γ σ)

inductive Event (κ ρ π : Type) where
  | openAt (key : κ) (answers : OpenAnswers)
  | commit (rng : ρ) (answers : CallAnswers)
  | sign (handle : ℕ) (package : π) (answers : CallAnswers)
  | drop (handle : ℕ)
  | close
  | crash

section

variable [Primitives] {ε κ ρ ν μ γ π σ : Type}

def World.start (files : Files) : World κ ν μ γ σ := ⟨files, none, 0, [], [], []⟩

def World.step (kind : SignerKind ε κ ρ ν μ γ π σ) (w : World κ ν μ γ σ) :
    Event κ ρ π → World κ ν μ γ σ
  | .openAt key answers =>
    match w.signer with
    -- the lock is taken
    | some _ => w
    | none   =>
      match (kind.openAt key answers).on w.files with
      | (.ok signer, files) =>
        { w with files := files, signer := some signer, openings := w.openings + 1 }
      | (.error _, files)   => { w with files := files }
  | .commit rng answers =>
    match w.signer with
    | none        => w
    | some signer =>
      match (kind.commit rng answers).on ⟨signer, w.files⟩ with
      | (.ok (nonces, commitment), held) =>
        { w with
          files := held.files
          signer := some held.signer
          handles := ⟨w.openings, nonces⟩ :: w.handles
          published := ⟨commitment, nonces.record⟩ :: w.published }
      | (.error _, held) => { w with files := held.files, signer := some held.signer }
  | .sign i package answers =>
    match w.signer, w.handles[i]? with
    | some signer, some handle =>
      match (kind.sign handle.nonces package answers).on ⟨signer, w.files⟩ with
      | (.ok value, held) =>
        { w with
          files := held.files
          signer := some held.signer
          handles := w.handles.eraseIdx i
          shares := ⟨handle.nonces.record, handle.opening, w.openings, value⟩ :: w.shares }
      | (.error _, held) =>
        { w with
          files := held.files
          signer := some held.signer
          handles := w.handles.eraseIdx i }
    | _, _ => w
  | .drop i => { w with handles := w.handles.eraseIdx i }
  | .close  => { w with signer := none }
  | .crash  => { w with signer := none, handles := [] }

/-- The operating system lists a directory as it is. -/
def Event.Faithful (w : World κ ν μ γ σ) : Event κ ρ π → Prop
  | .openAt _ answers => OpenAnswers.Lists answers w.files
  | _                 => True

/-- Any calls from any directory on, in any order, however they end. -/
inductive Run (kind : SignerKind ε κ ρ ν μ γ π σ) : World κ ν μ γ σ → Prop where
  | start (files : Files) : Run kind (.start files)
  | step {w : World κ ν μ γ σ} (run : Run kind w) {event : Event κ ρ π}
      (faithful : event.Faithful w) : Run kind (w.step kind event)

/-! ### The invariant -/

variable (kind : SignerKind ε κ ρ ν μ γ π σ)

/-- A returned commitment is in its file, as it was recorded or burned. -/
structure Stored (files : Files) (p : Publication μ γ) : Prop where
  recorded : kind.recorded p.commitment = .ok p.record.commitment
  unburned : p.record.burned = false
  bound : ∃ manifest, files .binding = some manifest ∧ blake3 manifest = p.record.signer
  file : files (kind.path p.record) = some (kind.format.encode p.record) ∨
    ∃ transcript, files (kind.path p.record) =
      some (kind.format.encode { p.record with burned := true, transcript })

/-- The records of the nonces in memory and of those that were used. -/
def World.records (w : World κ ν μ γ σ) : List (NonceRecord γ) :=
  w.handles.map (·.nonces.record) ++ w.shares.map (·.record)

structure Invariant (w : World κ ν μ γ σ) : Prop where
  nodup : (w.records.map kind.path).Nodup
  published : ∀ r ∈ w.records, ∃ p ∈ w.published, p.record = r
  stored : ∀ p ∈ w.published, Stored kind w.files p
  bound : ∀ signer, w.signer = some signer → Held.Bound ⟨signer, w.files⟩
  stale : ∀ signer, w.signer = some signer → ∀ h ∈ w.handles, h.opening ≠ w.openings →
    w.files (kind.path h.nonces.record) ≠ some (kind.format.encode h.nonces.record)
  current : ∀ s ∈ w.shares, s.issued = s.signed

variable {kind}

variable {files : Files} {p : Publication μ γ} {files' : Files}

lemma Stored.of_kept (h : Stored kind files p) (hbinding : files' .binding = files .binding)
    (hfile : files' (kind.path p.record) = files (kind.path p.record)) : Stored kind files' p where
  recorded := h.recorded
  unburned := h.unburned
  bound := hbinding ▸ h.bound
  file := hfile ▸ h.file

lemma Stored.ne_none (h : Stored kind files p) : files (kind.path p.record) ≠ none := by
  rcases h.file with heq | ⟨transcript, heq⟩ <;> simp [heq]

/-- Writing a nonce file leaves the binding alone. -/
lemma binding_of_write (outcome : Replacement) (r : NonceRecord γ) (bytes : Bytes) (files : Files) :
    outcome.files (kind.path r) bytes files .binding = files .binding :=
  (files_cases _ _ _ _ _).resolve_right (by simp [path])

variable {Fits : γ → Prop}

/-- Opening a directory keeps what it stores. -/
lemma Stored.of_opens (hformat : kind.format.Lawful Fits)
    (hfits : ∀ c g, kind.recorded c = .ok g → Fits g)
    {r : Except (SignerError ε) (DurableSigner κ)} (hopens : kind.Opens Fits files files' r)
    (h : Stored kind files p) : Stored kind files' p := by
  obtain ⟨manifest, hmanifest, hsigner⟩ := h.bound
  have hbinding : files' .binding = files .binding :=
    hopens.binding.resolve_right (by simp [hmanifest])
  rcases hopens.nonces (blake3 (kind.nameBytes p.record.signer p.record.commitment)) with
    hkept | ⟨record, hrecord, hbefore, hafter⟩
  · exact h.of_kept hbinding hkept
  · refine ⟨h.recorded, h.unburned, hbinding ▸ h.bound, .inr ?_⟩
    rcases h.file with heq | ⟨transcript, heq⟩
    · have hsame := hformat.encode_inj (hfits _ _ h.recorded) hrecord
        (Option.some.inj (heq.symm.trans hbefore))
      subst hsame
      exact ⟨p.record.transcript, hafter⟩
    · have hsame := hformat.encode_inj (r := { p.record with burned := true, transcript })
        (hfits _ _ h.recorded) hrecord (Option.some.inj (heq.symm.trans hbefore))
      subst hsame
      exact ⟨transcript, hafter⟩

lemma Invariant.start (files : Files) : Invariant kind (World.start files : World κ ν μ γ σ) where
  nodup := by simp [World.start, World.records]
  published := by simp [World.start, World.records]
  stored := by simp [World.start]
  bound := by simp [World.start]
  stale := by simp [World.start]
  current := by simp [World.start]

variable {w : World κ ν μ γ σ} {answers : CallAnswers}

/-- Nonces may be dropped and the signer be closed. -/
lemma Invariant.of_fewer (h : Invariant kind w) {handles : List (Handle ν γ)}
    (hhandles : handles.Sublist w.handles) {signer : Option (DurableSigner κ)}
    (hsigner : ∀ s, signer = some s → w.signer = some s) :
    Invariant kind { w with handles, signer } where
  nodup := h.nodup.sublist (((hhandles.map _).append (.refl _)).map _)
  published r hr := h.published r (((hhandles.map _).append (.refl _)).subset hr)
  stored := h.stored
  bound s hs := h.bound s (hsigner s hs)
  stale s hs handle hhandle := h.stale s (hsigner s hs) handle (hhandles.subset hhandle)
  current := h.current

/-- A record in memory or used is in the directory. -/
lemma Invariant.ne_none (h : Invariant kind w) {r : NonceRecord γ} (hr : r ∈ w.records) :
    w.files (kind.path r) ≠ none := by
  obtain ⟨p, hp, rfl⟩ := h.published r hr
  exact (h.stored p hp).ne_none

lemma Invariant.openAt (hformat : kind.format.Lawful Fits)
    (hfits : ∀ c g, kind.recorded c = .ok g → Fits g) (h : Invariant kind w) {key : κ}
    {answers : OpenAnswers} (hlists : OpenAnswers.Lists answers w.files) :
    Invariant kind (w.step kind (.openAt key answers)) := by
  rcases hsigner : w.signer with _ | signer
  · rcases hopen : (kind.openAt key answers).on w.files with ⟨_ | signer, files⟩
    · have hopens := openAt_opens hformat hlists hopen
      simp only [World.step, hsigner, hopen]
      exact ⟨h.nodup, h.published, fun p hp => (h.stored p hp).of_opens hformat hfits hopens,
        by simp, by simp, h.current⟩
    · have hopens := openAt_opens hformat hlists hopen
      simp only [World.step, hsigner, hopen]
      refine ⟨h.nodup, h.published, fun p hp => (h.stored p hp).of_opens hformat hfits hopens,
        fun s hs => ?_, fun s hs handle hhandle _ hfile => ?_, h.current⟩
      · cases hs
        exact hopens.bound signer rfl
      · -- the opening left no record unburned
        obtain ⟨p, hp, hrecord⟩ := h.published _ (mem_append_left _
          (mem_map_of_mem hhandle))
        obtain ⟨record, hrecord', hburned, hbytes⟩ := hopens.burned signer rfl _ _ hfile
        have hcommitment := hfits _ _ (h.stored p hp).recorded
        rw [hrecord] at hcommitment
        have hsame := hformat.encode_inj hcommitment hrecord' hbytes
        have hunburned := (h.stored p hp).unburned
        rw [hrecord, hsame, hburned] at hunburned
        cases hunburned
  · simpa only [World.step, hsigner] using h

/-- The binding is not a nonce file, so a signer stays bound. -/
lemma Invariant.bound_of_write (h : Invariant kind w) {signer signer' : DurableSigner κ}
    (hsigner : w.signer = some signer) (hbinding : signer'.binding = signer.binding)
    (hfiles : files .binding = w.files .binding) :
    ∀ s, some signer' = some s → Held.Bound ⟨s, files⟩ := by
  rintro s ⟨⟩
  obtain ⟨manifest, hmanifest, hhash⟩ := h.bound signer hsigner
  exact ⟨manifest, hfiles.trans hmanifest, hhash.trans hbinding.symm⟩

lemma Invariant.commit (h : Invariant kind w) {rng : ρ} :
    Invariant kind (w.step kind (.commit rng answers)) := by
  rcases hsigner : w.signer with _ | signer
  · simpa only [World.step, hsigner] using h
  rcases hcommit : (kind.commit rng answers).on ⟨signer, w.files⟩ with ⟨r, held⟩
  obtain ⟨hbinding, ⟨⟨e, rfl⟩, hfiles⟩ | ⟨record, commitment, hreserves, hfiles, hr⟩⟩ :=
    commit_cases hcommit
  · simp only [World.step, hsigner, hcommit]
    rw [hfiles]
    exact ⟨h.nodup, h.published, h.stored, h.bound_of_write hsigner hbinding rfl,
      fun _ _ => h.stale signer hsigner, h.current⟩
  -- the file that is written is new, so it is not that of a record that is already there
  have hkept : ∀ path, w.files path ≠ none → held.files path = w.files path := by
    intro path hpath
    rw [hfiles]
    refine (files_cases _ _ _ _ _).resolve_right ?_
    rintro ⟨rfl, -⟩
    exact hpath hreserves.fresh
  have hsame : held.files .binding = w.files .binding := by
    rw [hfiles]
    exact binding_of_write _ _ _ _
  have hstored : ∀ p ∈ w.published, Stored kind held.files p := fun p hp =>
    (h.stored p hp).of_kept hsame (hkept _ (h.stored p hp).ne_none)
  have hstale : ∀ handle ∈ w.handles, handle.opening ≠ w.openings →
      held.files (kind.path handle.nonces.record) ≠
        some (kind.format.encode handle.nonces.record) := by
    intro handle hhandle hopening
    rw [hkept _ (h.ne_none (mem_append_left _ (mem_map_of_mem hhandle)))]
    exact h.stale signer hsigner handle hhandle hopening
  rcases hr with ⟨e, rfl⟩ | ⟨hwrite, nonces, rfl⟩
  · simp only [World.step, hsigner, hcommit]
    exact ⟨h.nodup, h.published, hstored, h.bound_of_write hsigner hbinding hsame,
      fun _ _ => hstale, h.current⟩
  · simp only [World.step, hsigner, hcommit]
    rw [hwrite, files_replaced] at hfiles
    refine ⟨?_, ?_, ?_, h.bound_of_write hsigner hbinding hsame, ?_, h.current⟩
    · refine nodup_cons.mpr ⟨fun hmem => ?_, h.nodup⟩
      obtain ⟨r, hr, hpath⟩ := mem_map.mp hmem
      exact h.ne_none hr (hpath ▸ hreserves.fresh)
    · rintro r (_ | ⟨_, hr⟩)
      · exact ⟨_, mem_cons_self, rfl⟩
      · obtain ⟨p, hp, hrecord⟩ := h.published r hr
        exact ⟨p, mem_cons_of_mem _ hp, hrecord⟩
    · refine forall_mem_cons.mpr ⟨?_, hstored⟩
      obtain ⟨manifest, hmanifest, hhash⟩ := hreserves.bound
      refine ⟨hreserves.recorded, hreserves.burned, ⟨manifest, hsame.trans hmanifest,
        hhash.trans hreserves.signer.symm⟩, .inl ?_⟩
      rw [hfiles]
      exact Function.update_self _ _ _
    · intro _ _
      exact forall_mem_cons.mpr ⟨fun hopening => absurd rfl hopening, hstale⟩

/-- Burning the record of nonces in memory keeps what the directory stores. -/
lemma Stored.of_burn (hformat : kind.format.Lawful Fits)
    (hfits : ∀ c g, kind.recorded c = .ok g → Fits g) {record : NonceRecord γ}
    (hfitsRecord : Fits record.commitment) (hunburned : record.burned = false)
    (hrecord : files (kind.path record) = some (kind.format.encode record)) (outcome : Replacement)
    (transcript : Hash) (h : Stored kind files p) : Stored kind (outcome.files (kind.path record)
      (kind.format.encode { record with burned := true, transcript }) files) p := by
  rcases files_cases outcome (kind.path record)
    (kind.format.encode { record with burned := true, transcript }) files (kind.path p.record) with
    hkept | ⟨hpath, hfile⟩
  · exact h.of_kept (binding_of_write _ _ _ _) hkept
  · refine ⟨h.recorded, h.unburned, ?_, .inr ⟨transcript, ?_⟩⟩
    · rw [binding_of_write]
      exact h.bound
    · have hsame : record = p.record := by
        rcases h.file with heq | ⟨burntAt, heq⟩
        · rw [hpath, hrecord] at heq
          exact hformat.encode_inj hfitsRecord (hfits _ _ h.recorded) (Option.some.inj heq)
        · -- the record is unburned in memory and in its file
          rw [hpath, hrecord] at heq
          have hburnt := hformat.encode_inj
            (s := { p.record with burned := true, transcript := burntAt }) hfitsRecord
            (hfits _ _ h.recorded) (Option.some.inj heq)
          rw [hburnt] at hunburned
          cases hunburned
      rw [hfile, hsame]

lemma Invariant.sign (hformat : kind.format.Lawful Fits)
    (hfits : ∀ c g, kind.recorded c = .ok g → Fits g) (h : Invariant kind w) {i : ℕ} {package : π} :
    Invariant kind (w.step kind (.sign i package answers)) := by
  rcases hsigner : w.signer with _ | signer
  · simpa only [World.step, hsigner] using h
  rcases hhandle : w.handles[i]? with _ | handle
  · simpa only [World.step, hsigner, hhandle] using h
  have hmem : handle ∈ w.handles := mem_of_getElem? hhandle
  have hperm : w.handles.Perm (handle :: w.handles.eraseIdx i) := by
    obtain ⟨hi, rfl⟩ := List.getElem?_eq_some_iff.mp hhandle
    exact (getElem_cons_eraseIdx_perm hi).symm
  have hfewer : Invariant kind { w with handles := w.handles.eraseIdx i } :=
    h.of_fewer (eraseIdx_sublist w.handles i) fun _ hs => hs
  obtain ⟨p, hp, hrecord⟩ := h.published _ (mem_append_left _ (mem_map_of_mem hmem))
  have hstored := h.stored p hp
  rcases hsign : (kind.sign handle.nonces package answers).on ⟨signer, w.files⟩ with ⟨r, held⟩
  obtain ⟨hbinding, ⟨⟨e, rfl⟩, hfiles⟩ | ⟨hfile, hfiles⟩⟩ := sign_cases hsign
  · simp only [World.step, hsigner, hhandle, hsign]
    rw [hfiles]
    exact ⟨hfewer.nodup, hfewer.published, hfewer.stored, h.bound_of_write hsigner hbinding rfl,
      fun _ _ => hfewer.stale signer hsigner, hfewer.current⟩
  have hunburned := hstored.unburned
  have hcommitment := hfits _ _ hstored.recorded
  rw [hrecord] at hunburned hcommitment
  have hpaths : ((handle.nonces.record ::
      World.records { w with handles := w.handles.eraseIdx i }).map kind.path).Nodup :=
    (((hperm.map _).append_right _).map _).nodup_iff.mp h.nodup
  have hsame : held.files .binding = w.files .binding := by
    rw [hfiles]
    exact binding_of_write _ handle.nonces.record _ _
  have hkept : ∀ p ∈ w.published, Stored kind held.files p := by
    intro p hp
    rw [hfiles]
    exact (h.stored p hp).of_burn hformat hfits hcommitment hunburned hfile _ _
  have hstale : ∀ other ∈ w.handles.eraseIdx i, other.opening ≠ w.openings →
      held.files (kind.path other.nonces.record) ≠
        some (kind.format.encode other.nonces.record) := by
    intro other hother hopening
    have hne : kind.path other.nonces.record ≠ kind.path handle.nonces.record := by
      intro heq
      refine (nodup_cons.mp hpaths).1 (heq ▸ mem_map_of_mem ?_)
      exact mem_append_left _ (mem_map_of_mem hother)
    rw [hfiles, (files_cases _ _ _ _ _).resolve_right fun hwritten => hne hwritten.1]
    exact hfewer.stale signer hsigner other hother hopening
  rcases r with e | value
  · simp only [World.step, hsigner, hhandle, hsign]
    exact ⟨hfewer.nodup, hfewer.published, hkept, h.bound_of_write hsigner hbinding hsame,
      fun _ _ => hstale, hfewer.current⟩
  · simp only [World.step, hsigner, hhandle, hsign]
    refine ⟨?_, ?_, hkept, h.bound_of_write hsigner hbinding hsame, fun _ _ => hstale, ?_⟩
    · exact ((perm_middle.symm).map _).nodup_iff.mp hpaths
    · intro r hr
      rcases mem_cons.mp (perm_middle.mem_iff.mp hr) with rfl | hr
      · exact ⟨p, hp, hrecord⟩
      · exact hfewer.published r hr
    · refine forall_mem_cons.mpr ⟨?_, h.current⟩
      -- nonces of an earlier opening would have found their record burned
      by_contra hopening
      exact h.stale signer hsigner handle hmem hopening hfile

lemma Invariant.step (hformat : kind.format.Lawful Fits)
    (hfits : ∀ c g, kind.recorded c = .ok g → Fits g) (h : Invariant kind w) {event : Event κ ρ π}
    (hfaithful : event.Faithful w) : Invariant kind (w.step kind event) := by
  cases event with
  | openAt key answers => exact h.openAt hformat hfits hfaithful
  | commit rng answers => exact h.commit
  | sign i package answers => exact h.sign hformat hfits
  | drop i => exact h.of_fewer (eraseIdx_sublist w.handles i) fun _ hs => hs
  | close => exact h.of_fewer (.refl _) nofun
  | crash => exact h.of_fewer (nil_sublist _) nofun

lemma Run.invariant (hformat : kind.format.Lawful Fits)
    (hfits : ∀ c g, kind.recorded c = .ok g → Fits g) (h : Run kind w) : Invariant kind w := by
  induction h with
  | start files => exact .start files
  | step _ hfaithful ih => exact ih.step hformat hfits hfaithful

/-! ### Nonces are used once -/

variable (kind)

/-- No commitment was answered twice, every returned commitment is in the directory, and every share
was computed with nonces of the opening it was computed in. -/
structure Safe (w : World κ ν μ γ σ) : Prop where
  once : (w.shares.map (·.record.commitment)).Nodup
  answers : ∀ s ∈ w.shares, ∃ p ∈ w.published, p.record = s.record
  recorded : ∀ p ∈ w.published, Stored kind w.files p
  current : ∀ s ∈ w.shares, s.issued = s.signed

variable {kind}

lemma Invariant.safe (h : Invariant kind w) : Safe kind w where
  once := by
    have hpaths : ((w.shares.map (·.record)).map kind.path).Nodup :=
      h.nodup.sublist ((sublist_append_right _ _).map _)
    rw [map_map] at hpaths
    refine pairwise_map.mpr ((pairwise_map.mp hpaths).imp_of_mem ?_)
    intro s t hs ht hne heq
    obtain ⟨p, hp, hrecord⟩ := h.published _ (mem_append_right _ (mem_map_of_mem hs))
    obtain ⟨q, hq, hrecord'⟩ := h.published _ (mem_append_right _ (mem_map_of_mem ht))
    obtain ⟨m, hm, hsigner⟩ := (h.stored p hp).bound
    obtain ⟨m', hm', hsigner'⟩ := (h.stored q hq).bound
    rw [hm] at hm'
    cases hm'
    rw [hrecord] at hsigner
    rw [hrecord'] at hsigner'
    have hpath : kind.path s.record = kind.path t.record := by
      rw [path, path, heq, ← hsigner, ← hsigner']
    exact hne hpath
  answers s hs := h.published _ (mem_append_right _ (mem_map_of_mem hs))
  recorded := h.stored
  current := h.current

end

end Mininet.Signing
