import Mininet.Dtn.Transport

/-!
# Weighted turns

While a class has parcels queued, it is served again before the other classes have handed out more
than their weights, provided that no class that waits enters a poll with deficit left over. What
carries this through a poll: what was handed out since the last turn of a class, with the weights of
the classes whose turn comes before it, is within that bound. Deficit that is left over is kept,
also when a queue runs empty, and is paid out later in one go.
-/

namespace Mininet.Dtn

open List

/-- What the other classes may hand out between two turns of a class. -/
def others (p : Priority) : ℕ := ∑ q with q ≠ p, q.drrWeight

/-- Between two turns of a class the others hand out no more than their weights. -/
def Fair (p : Priority) (log : List Priority) : Prop :=
  ∀ between, p :: (between ++ [p]) <:+: log → p ∉ between → between.length ≤ others p

/-- Since the last turn of a class the others handed out that much, less `k`. -/
def Since (p : Priority) (log : List Priority) (k : ℕ) : Prop :=
  ∀ between, p :: between <:+ log → p ∉ between → between.length + k ≤ others p

/-- The weights of the classes whose turn comes before that of `p`. -/
def ahead (p : Priority) (cursor : ℕ) : ℕ :=
  ((((List.range 4).map fun i => Priority.all.getD ((cursor + i) % 4) .p0).takeWhile
    (· ≠ p)).map Priority.drrWeight).sum

section

variable {p q : Priority} {log : List Priority} {j k : ℕ}

lemma Since.mono (h : Since p log k) (hle : j ≤ k) : Since p log j :=
  fun between hlog hbetween => (Nat.add_le_add_left hle _).trans (h between hlog hbetween)

lemma Since.snoc (h : Since p log k) (hother : q ≠ p → j < k) (hturn : q = p → j ≤ others p) :
    Since p (log ++ [q]) j := by
  intro between hlog hbetween
  obtain hnil | ⟨t, heq, ht⟩ := suffix_concat_iff.mp hlog
  · cases hnil
  cases t with
  | nil =>
    cases heq
    simpa using hturn rfl
  | cons r t =>
    obtain rfl : between = t ++ [q] := (List.cons.inj heq).2
    obtain rfl : p = r := (List.cons.inj heq).1
    simp only [mem_append, mem_singleton, not_or] at hbetween
    have hlt := hother (Ne.symm hbetween.2)
    have hle := h t ht hbetween.1
    rw [length_append, length_singleton]
    omega

lemma Fair.snoc (h : Fair p log) (hturn : q = p → Since p log 0) : Fair p (log ++ [q]) := by
  intro between hlog hbetween
  obtain hend | hlog := infix_concat_iff.mp hlog
  · obtain hnil | ⟨t, heq, ht⟩ := suffix_concat_iff.mp hend
    · cases hnil
    obtain ⟨rfl, hq⟩ : p :: between = t ∧ [p] = [q] := append_inj' heq rfl
    exact hturn (List.cons.inj hq).1.symm between ht hbetween
  · exact h between hlog hbetween

lemma ahead_mod (p : Priority) (cursor : ℕ) : ahead p (cursor % 4) = ahead p cursor := by
  simp [ahead, Nat.mod_add_mod]

lemma ahead_eq_add : ∀ p, ∀ idx < 4, Priority.all.getD idx .p0 ≠ p →
    ahead p idx = (Priority.all.getD idx .p0).drrWeight + ahead p ((idx + 1) % 4) := by
  decide

lemma ahead_turn : ∀ p, ∀ idx < 4, Priority.all.getD idx .p0 = p →
    ahead p ((idx + 1) % 4) = others p := by
  decide

end

namespace Transport

/-- The class of a parcel, which outlasts its payload. -/
def classOf (s : Transport) (id : DeferredId) : Option Priority :=
  (s.entries id).map (·.parcel.priority)

/-- The classes of what was handed out, in order. -/
def classes (cls : DeferredId → Option Priority) (delivered : List DeliveredParcel) :
    List Priority := delivered.filterMap fun d => cls d.id

/-- No class that waits has deficit left over. -/
abbrev NoneLeft (s : Transport) : Prop := ∀ q, s.queues q ≠ [] → s.drrDeficit q = 0

variable [Primitives]

/-- A part of a run in which a class stays queued from its first turn on, with the classes that were
served in it. Every poll of it begins with what `ready` asks for. -/
inductive Stretch (ready : Transport → Prop) (p : Priority) : Transport → List Priority → Prop
  | start {n b : ℕ} {s : Transport} {dlog : List (DeliveredParcel × ℕ)} :
      Reaches Set.univ n b s dlog → Stretch ready p s []
  | enqueue {s : Transport} {log : List Priority} (parcel : DeferredParcel) (nowMs : ℕ) :
      Stretch ready p s log → (p ∈ log → s.queues p ≠ []) →
      Stretch ready p (s.enqueue parcel nowMs).2 log
  | pollDelivered {s : Transport} {log : List Priority} (limit nowMs : ℕ) :
      Stretch ready p s log → (p ∈ log → s.queues p ≠ []) → ready s →
      Stretch ready p (s.pollDelivered limit nowMs).2
        (log ++ classes s.classOf (s.pollDelivered limit nowMs).1)

variable {parcels : Set DeferredParcel} {s : Transport} {limit k n : ℕ} {p q : Priority}
  {log : List Priority} {cls : DeferredId → Option Priority} {delivered : List DeliveredParcel}

omit [Primitives] in
lemma classOf_leave (status : DeferredStatus) (gone rest : List DeferredId) :
    (s.leave status p gone rest).classOf = s.classOf := by
  funext id
  rw [classOf, entries_leave]
  split
  · rw [Option.map_map]
    rfl
  · rfl

/-- Where a poll stands with the turns of a class, of which `k` bounds what is still to come before
the next one. -/
structure Turns (parcels : Set DeferredParcel) (cls : DeferredId → Option Priority) (p : Priority)
    (log : List Priority) (k : ℕ) (s : Transport) (delivered : List DeliveredParcel) : Prop where
  sound : Sound parcels s
  classOf_eq : s.classOf = cls
  fair : Fair p (log ++ classes cls delivered)
  since : s.queues p ≠ [] → Since p (log ++ classes cls delivered) k

lemma Turns.counters (h : Turns parcels cls p log k s delivered) (deficit : Priority → ℕ)
    (cursor : ℕ) :
    Turns parcels cls p log k { s with drrDeficit := deficit, drrCursor := cursor } delivered :=
  ⟨h.sound.counters _ _, h.classOf_eq, h.fair, h.since⟩

lemma Turns.mono {j : ℕ} (h : Turns parcels cls p log k s delivered)
    (hle : s.queues p ≠ [] → j ≤ k) : Turns parcels cls p log j s delivered :=
  ⟨h.sound, h.classOf_eq, h.fair, fun hne => (h.since hne).mono (hle hne)⟩

/-- The turn of a class, up to the parcels that its deficit pays for. Deficit is left over at the
limit of a poll, or when the queue runs empty. -/
lemma Turns.serve (limit : ℕ) {bound : ℕ → ℕ} (hother : q ≠ p → ∀ n, bound n < bound (n + 1))
    (hturn : q = p → ∀ n, bound n ≤ others p) (h : Turns parcels cls p log (bound n) s delivered) :
    let r := serve q limit n s delivered
    Turns parcels cls p log (bound r.1) r.2.1 r.2.2 ∧
      (r.1 ≤ n ∧ (n ≤ r.1 → n = 0 ∨ limit ≤ delivered.length ∨ s.queues q = [])) ∧
      (r.1 = 0 ∨ limit ≤ r.2.2.length ∨ r.2.1.queues q = []) ∧
      r.2.1.drrDeficit = s.drrDeficit ∧ ∀ q' ≠ q, r.2.1.queues q' = s.queues q' := by
  induction n generalizing s delivered with
  | zero => exact ⟨h, ⟨le_rfl, fun _ => .inl rfl⟩, .inl rfl, rfl, fun _ _ => rfl⟩
  | succ n ih =>
    rw [Transport.serve]
    split
    next hlimit => exact ⟨h, by simp [hlimit], .inr (.inl hlimit), rfl, fun _ _ => rfl⟩
    split
    next hqueue => exact ⟨h, by simp [hqueue], .inr (.inr hqueue), rfl, fun _ _ => rfl⟩
    next id rest hqueue =>
      obtain ⟨e, he, -, hpriority⟩ := (h.sound.mem_queues q id).mp (hqueue ▸ mem_cons_self)
      have hcls : cls id = some q := by rw [← h.classOf_eq, classOf, he, ← hpriority]; rfl
      have hclasses : log ++ classes cls (delivered ++ (s.entries id).toList.map fun entry =>
          ⟨entry.id, entry.parcel.destination, entry.parcel.payload⟩) =
          log ++ classes cls delivered ++ [q] := by
        simp [classes, he, (h.sound.origin id e he).1, hcls]
      have hqueues : (s.leave .bundleDelivered q [id] rest).queues p ≠ [] → s.queues p ≠ [] := by
        rw [queues_leave]
        split
        next heq => simp [heq, hqueue]
        · exact fun hne => hne
      obtain ⟨hturns, ⟨hle, -⟩, hleft, hdeficit, hqueues⟩ := ih ⟨sound_leave h.sound (by simp [hqueue])
        (by simp), (classOf_leave _ _ _).trans h.classOf_eq, hclasses ▸ h.fair.snoc fun heq =>
          (h.since (by simp [← heq, hqueue])).mono (Nat.zero_le _), fun hne => hclasses ▸
            (h.since (hqueues hne)).snoc (fun hq => hother hq n) fun hq => hturn hq n⟩
      refine ⟨hturns, ⟨by omega, by omega⟩, hleft, hdeficit, fun q' hq' => ?_⟩
      rw [hqueues q' hq', queues_leave, if_neg hq']

lemma Turns.visit {scan : Scan} {idx : ℕ} (hidx : idx < 4)
    (h : Turns parcels cls p log (ahead p idx) scan.transport scan.delivered)
    (hroom : scan.delivered.length < limit) (hnone : scan.transport.NoneLeft) :
    let scan' := visit limit scan idx
    Turns parcels cls p log (ahead p ((idx + 1) % 4)) scan'.transport scan'.delivered ∧
      scan'.nextCursor = (idx + 1) % 4 ∧
      (limit ≤ scan'.delivered.length ∨ scan'.transport.NoneLeft) := by
  have hahead := ahead_eq_add p idx hidx
  have hturn := ahead_turn p idx hidx
  rw [Transport.visit, if_neg hroom.not_ge]
  set q := Priority.all.getD idx .p0
  split
  next hqueue =>
    refine ⟨h.mono fun hne => ?_, rfl, .inr hnone⟩
    have := hahead fun heq => hne (heq ▸ hqueue)
    omega
  next hqueue =>
    have hdeficit : (scan.transport.drrDeficit q + q.drrWeight) % 2 ^ 32 = q.drrWeight := by
      rw [hnone q hqueue]
      cases q <;> rfl
    have hweight : q.drrWeight ≠ 0 := by cases q <;> decide
    -- one parcel at least is handed out, which is a turn of the class
    let bound n := if q = p then if n < q.drrWeight then others p else 0
      else n + ahead p ((idx + 1) % 4)
    have hbound : bound q.drrWeight ≤ ahead p idx := by
      by_cases hq : q = p
      · simp [bound, hq]
      · simp [bound, hq, hahead hq]
    obtain ⟨hserved, ⟨-, hpaid⟩, hleft, hsame, hothers⟩ := (h.mono fun _ => hbound).serve limit
      (q := q) (fun hq n => by simp [bound, hq])
      (fun hq n => by simp only [bound, if_pos hq]; split <;> simp)
    simp only [hdeficit]
    set r := Transport.serve q limit q.drrWeight scan.transport scan.delivered
    have hpays : r.1 < q.drrWeight := lt_of_not_ge fun hge => by
      rcases hpaid hge with h | h | h
      exacts [hweight h, hroom.not_ge h, hqueue h]
    refine ⟨(hserved.mono fun _ => ?_).counters _ _, trivial, ?_⟩
    · by_cases hq : q = p
      · simp only [bound, if_pos hq, if_pos hpays, hturn hq, le_refl]
      · simp [bound, hq]
    · refine or_iff_not_imp_left.mpr fun hlimit q' hne => ?_
      by_cases hq : q' = q
      · subst hq
        simpa [hlimit, hne] using hleft
      · simpa [hq, hsame] using hnone q' (hothers q' hq ▸ hne)

lemma Turns.rounds (fuel : ℕ) {cursor : ℕ} (hcursor : cursor < 4)
    (h : Turns parcels cls p log (ahead p cursor) s delivered)
    (hgoing : limit ≤ delivered.length ∨ s.NoneLeft) :
    let r := rounds limit fuel cursor s delivered
    Turns parcels cls p log (ahead p r.2.drrCursor) r.2 r.1 := by
  induction fuel generalizing cursor s delivered with
  | zero => exact h.counters _ _
  | succ fuel ih =>
    -- a round on its way: it stopped at the limit, or goes on with the class after the last one
    have hscan : ∀ steps,
        let scan := (List.range steps).foldl
          (fun scan step => Transport.visit limit scan ((cursor + step) % 4))
          ⟨s, delivered, cursor, false⟩
        Turns parcels cls p log (ahead p scan.nextCursor) scan.transport scan.delivered ∧
          scan.nextCursor < 4 ∧ (limit ≤ scan.delivered.length ∨
            scan.nextCursor = (cursor + steps) % 4 ∧ scan.transport.NoneLeft) := by
      intro steps
      induction steps with
      | zero => exact ⟨h, hcursor, hgoing.imp_right (.intro (Nat.mod_eq_of_lt hcursor).symm)⟩
      | succ steps ih =>
        rw [range_succ, foldl_append, foldl_cons, foldl_nil]
        obtain ⟨hturns, hlt, hgoing⟩ := ih
        set scan := (List.range steps).foldl _ _
        rcases le_or_gt limit scan.delivered.length with hlimit | hroom
        · rw [Transport.visit, if_pos hlimit]
          exact ⟨hturns, hlt, .inl hlimit⟩
        · obtain ⟨hnext, hnone⟩ := hgoing.resolve_left hroom.not_ge
          rw [hnext] at hturns hlt
          obtain ⟨hturns, hnext, hgoing⟩ := hturns.visit hlt hroom hnone
          refine ⟨hnext ▸ hturns, hnext ▸ Nat.mod_lt _ (by decide), hgoing.imp_right (.intro ?_)⟩
          rw [hnext, Nat.mod_add_mod, add_assoc]
    obtain ⟨hturns, hlt, hgoing⟩ := hscan 4
    rw [Transport.rounds]
    split
    · exact h.counters _ _
    dsimp only
    split
    · exact ih hlt hturns (hgoing.imp_right And.right)
    · exact hturns.counters _ _

omit [Primitives] in
/-- Reaping changes nothing that turns depend on. -/
lemma reapExpired_spec (s : Transport) (nowMs : ℕ) :
    let s' := s.reapExpired nowMs
    s'.classOf = s.classOf ∧ s'.drrDeficit = s.drrDeficit ∧ s'.drrCursor = s.drrCursor ∧
      ∀ q, s.queues q = [] → s'.queues q = [] := by
  refine List.foldlRecOn Priority.all (reapClass nowMs) (motive := fun t : Transport =>
    t.classOf = s.classOf ∧ t.drrDeficit = s.drrDeficit ∧ t.drrCursor = s.drrCursor ∧
      ∀ q, s.queues q = [] → t.queues q = []) ⟨rfl, rfl, rfl, fun _ => id⟩ ?_
  rintro t ⟨hclass, hdeficit, hcursor, hqueues⟩ p -
  have hleave := counters_leave .expiredTransport t p
    ((t.queues p).filter fun id => t.expired nowMs id)
    ((t.queues p).filter fun id => !t.expired nowMs id)
  refine ⟨(classOf_leave _ _ _).trans hclass, hleave.1.trans hdeficit, hleave.2.trans hcursor,
    fun q hq => ?_⟩
  rw [reapClass, queues_leave]
  split
  next heq => simp [← heq, hqueues q hq]
  · exact hqueues q hq

lemma Turns.poll (limit nowMs : ℕ) {dlog : List (DeliveredParcel × ℕ)} (hsound : Sound parcels s)
    (hlogged : Logged s dlog) (hnone : s.NoneLeft) (hfair : Fair p log)
    (hsince : Since p log (ahead p s.drrCursor)) :
    let r := s.pollDelivered limit nowMs
    Turns parcels s.classOf p log (ahead p r.2.drrCursor) r.2 r.1 := by
  obtain ⟨hclass, hdeficit, hcursor, hqueues⟩ := s.reapExpired_spec nowMs
  have hlog : log ++ classes s.classOf [] = log := append_nil log
  have hreaped : Turns parcels s.classOf p log (ahead p s.drrCursor) (s.reapExpired nowMs) [] :=
    ⟨(polling_reapExpired hsound hlogged).sound, hclass, hlog.symm ▸ hfair,
      fun _ => hlog.symm ▸ hsince⟩
  unfold Transport.pollDelivered
  dsimp only
  split
  · exact hcursor.symm ▸ hreaped
  · rw [hcursor]
    rw [← ahead_mod] at hreaped
    refine hreaped.rounds _ (Nat.mod_lt _ (by decide)) (.inr fun q hq => ?_)
    exact hdeficit ▸ hnone q (mt (hqueues q) hq)

end Transport

open Transport

/-- Parcels to evaluate the model with. -/
def sampleOf (p : Priority) (i : ℕ) : Option DeferredParcel :=
  some { sampleParcel with priority := p, payload := [UInt8.ofNat i] }

/-- Parcels are put into a scheduler, and in between one at a time is asked for. -/
def sampleRun [Primitives] (calls : List (Option DeferredParcel)) : Transport :=
  calls.foldl (fun s c => c.elim (s.pollDelivered 1 0).2 fun parcel => (s.enqueue parcel 0).2)
    (Transport.new 16 16)

/-- After that the rest is asked for. -/
lemma stretch_sampleRun [Primitives] (ready : Transport → Prop) {p : Priority} {log : List Priority}
    (calls : List (Option DeferredParcel)) (hready : ready (sampleRun calls))
    (hlog : classes (sampleRun calls).classOf ((sampleRun calls).pollDelivered 16 0).1 = log) :
    ∃ s, Stretch ready p s log := by
  have hreaches : ∃ dlog, Reaches Set.univ 16 16 (sampleRun calls) dlog := by
    refine List.foldlRecOn calls _ (motive := fun s => ∃ dlog, Reaches Set.univ 16 16 s dlog)
      ⟨[], .new⟩ ?_
    rintro s ⟨dlog, hs⟩ (_ | parcel) _
    · exact ⟨_, hs.pollDelivered 1 0⟩
    · exact ⟨_, hs.enqueue 0 (Set.mem_univ parcel)⟩
  obtain ⟨dlog, hreaches⟩ := hreaches
  subst hlog
  exact ⟨_, .pollDelivered 16 0 (.start hreaches) nofun hready⟩

end Mininet.Dtn
