import Knowledge.Sync.Alike

/-!
A pull from an untrusted relay: what becomes of every blob of the page, and what a retry
after an error reaches.
-/

set_option autoImplicit false

namespace Knowledge.Sync
open Knowledge.Dedup Knowledge.Machine
open SyncEngine

inductive ClientSyncError where
  | transport
  | sync (cause : SyncError)
  deriving DecidableEq

def serve (held : List SealedDelta) (cursor : Nat) : PullPage :=
  ⟨cursor+(held.drop cursor).length, held.drop cursor⟩

inductive Disposition (T : Type) where
  | skipped
  | malformed
  | delta (envelope : DeltaEnvelope T)
  deriving DecidableEq

namespace SyncClient

def disposition {T : Type} (json : Json (DeltaEnvelope T)) (aead : Aead) (client : SyncClient)
    (blob : SealedDelta) : Disposition T :=
  match aead.decrypt client.sealKey blob.nonce blob.ciphertext (TopicId.asBytes client.topic) with
  | none => .skipped
  | some plaintext =>
    match json.fromSlice plaintext with
    | none => .malformed
    | some envelope => .delta envelope

def deltasAt {T : Type} (json : Json (DeltaEnvelope T)) (aead : Aead) (client : SyncClient)
    (envs : Nat → Env T) : Nat → List SealedDelta → List (Env T × Call T)
  | _, [] => []
  | offset, blob :: blobs =>
    match client.disposition json aead blob with
    | .delta envelope =>
      (envs offset, .mergeDelta envelope) :: deltasAt json aead client envs (offset+1) blobs
    | _ => deltasAt json aead client envs (offset+1) blobs

def pageDeltas {T : Type} (json : Json (DeltaEnvelope T)) (aead : Aead) (client : SyncClient)
    (envs : Nat → Env T) (held : List SealedDelta) : List (Env T × Call T) :=
  deltasAt json aead client envs client.pullCursor (held.drop client.pullCursor)

/-- `pull_reporting` on what any transport answers; `none` is an error of the transport. -/
def pullServed {T : Type} [DecidableEq T] (json : Json (DeltaEnvelope T)) (aead : Aead)
    (client : SyncClient) (e : SyncEngine T) (served : Option PullPage) (envs : Nat → Env T) :
    SyncClient × SyncEngine T × Except ClientSyncError (PullProgress T) :=
  match served with
  | none => (client, e, .error .transport)
  | some page =>
    let walked := pullBlobs json aead client envs ⟨e, 0, 0, 0, client.pullCursor⟩ page.blobs
    match walked.2 with
    | some err => (client, walked.1.engine, .error (.sync err))
    | none =>
      ({ client with pullCursor := max page.nextCursor walked.1.consumed }, walked.1.engine,
        .ok walked.1)

end SyncClient

deriving instance DecidableEq for PullProgress

/-! ## The walk over a page -/

namespace SyncClient
variable {T : Type} [DecidableEq T] {json : Json (DeltaEnvelope T)} {aead : Aead}
  {client : SyncClient} {envs : Nat → Env T}

omit [DecidableEq T] in
theorem absorbs_deltasAt {offset : Nat} {blobs : List SealedDelta} {c : Env T × Call T}
    (h : c ∈ deltasAt json aead client envs offset blobs) : c.2.absorbs = true := by
  induction blobs generalizing offset with
  | nil => simp [deltasAt] at h
  | cons blob blobs ih =>
    unfold deltasAt at h
    split at h
    · rcases List.mem_cons.mp h with rfl | h
      · rfl
      · exact ih h
    · exact ih h

omit [DecidableEq T] in
theorem offered_deltasAt (offset : Nat) (blobs : List SealedDelta) :
    offered (deltasAt json aead client envs offset blobs) =
      blobs.flatMap (fun blob =>
        match client.disposition json aead blob with
        | .delta d => d.ops
        | _ => []) := by
  induction blobs generalizing offset with
  | nil => rfl
  | cons blob blobs ih =>
    have htail := ih (offset+1)
    unfold deltasAt
    cases hd : client.disposition json aead blob <;>
      simp_all [offered, Call.entries]

omit [DecidableEq T] in
theorem deltasAt_append (offset : Nat) (blobs blobs' : List SealedDelta) :
    deltasAt json aead client envs offset (blobs ++ blobs') =
      deltasAt json aead client envs offset blobs ++
        deltasAt json aead client envs (offset+blobs.length) blobs' := by
  induction blobs generalizing offset with
  | nil => rfl
  | cons blob blobs ih =>
    have hoffset : offset+(blob :: blobs).length = offset+1+blobs.length := by
      simp only [List.length_cons]
      omega
    rw [hoffset, List.cons_append]
    cases hd : client.disposition json aead blob <;> simp [deltasAt, hd, ih]

omit [DecidableEq T] in
theorem calls_deltasAt (envs' : Nat → Env T) (offset : Nat) (blobs : List SealedDelta) :
    (deltasAt json aead client envs offset blobs).map Prod.snd =
      (deltasAt json aead client envs' offset blobs).map Prod.snd := by
  induction blobs generalizing offset with
  | nil => rfl
  | cons blob blobs ih =>
    unfold deltasAt
    cases hd : client.disposition json aead blob <;> simp [ih]

theorem pullBlobs_cons (p : PullProgress T) (blob : SealedDelta) (blobs : List SealedDelta) :
    pullBlobs json aead client envs p (blob :: blobs) =
      match client.disposition json aead blob with
      | .skipped =>
        pullBlobs json aead client envs
          { p with skipped := p.skipped+1, consumed := p.consumed+1 } blobs
      | .malformed =>
        pullBlobs json aead client envs
          { p with malformed := p.malformed+1, consumed := p.consumed+1 } blobs
      | .delta d =>
        if p.engine.log.compactionEpoch < d.compactionEpoch then
          (p, some (.compactionEpochBehind p.engine.log.compactionEpoch d.compactionEpoch))
        else
          pullBlobs json aead client envs
            { p with
              engine := p.engine.call (envs p.consumed) (.mergeDelta d)
              absorbed := p.absorbed+(forgotten p.engine.log d.ops).length
              consumed := p.consumed+1 } blobs := by
  have hcount : ∀ d : DeltaEnvelope T, (p.engine.absorbEnvelope d).log.ops.length -
      p.engine.log.ops.length = (forgotten p.engine.log d.ops).length := by
    intro d
    simp [absorbEnvelope, extend, reflect, OpLog.absorb_ops, forgotten]
  rw [pullBlobs]
  unfold openBlob disposition
  cases aead.decrypt client.sealKey blob.nonce blob.ciphertext (TopicId.asBytes client.topic) with
  | none => rfl
  | some plaintext =>
    cases hj : json.fromSlice plaintext with
    | none => simp [applyDelta, decodeDelta, hj]
    | some d =>
      by_cases hlt : p.engine.log.compactionEpoch < d.compactionEpoch
      · simp [applyDelta, decodeDelta, hj, hlt]
      · simp [applyDelta, decodeDelta, hj, hlt, call, mergeDeltaEnvelope, hcount]

def PullProgress.after (json : Json (DeltaEnvelope T)) (aead : Aead) (client : SyncClient)
    (envs : Nat → Env T) (p : PullProgress T) (blobs : List SealedDelta) : PullProgress T :=
  let cs := deltasAt json aead client envs p.consumed blobs
  { engine := p.engine.calls cs
    absorbed := p.absorbed+p.engine.absorbedBy cs
    skipped := p.skipped+blobs.countP (fun b => client.disposition json aead b = .skipped)
    malformed := p.malformed+blobs.countP (fun b => client.disposition json aead b = .malformed)
    consumed := p.consumed+blobs.length }

theorem pullBlobs_accepts {p : PullProgress T} {blobs : List SealedDelta}
    (h : p.engine.Accepts (deltasAt json aead client envs p.consumed blobs)) :
    pullBlobs json aead client envs p blobs =
      (PullProgress.after json aead client envs p blobs, none) := by
  induction blobs generalizing p with
  | nil => rfl
  | cons blob blobs ih =>
    rw [pullBlobs_cons]
    unfold deltasAt at h
    cases hd : client.disposition json aead blob with
    | skipped =>
      simp only [hd] at h ⊢
      rw [ih h]
      simp [PullProgress.after, deltasAt, hd]
      omega
    | malformed =>
      simp only [hd] at h ⊢
      rw [ih h]
      simp [PullProgress.after, deltasAt, hd]
      omega
    | delta d =>
      simp only [hd] at h ⊢
      have hle : ¬ p.engine.log.compactionEpoch < d.compactionEpoch := Nat.not_lt.mpr h.1
      rw [if_neg hle, ih h.2]
      simp [PullProgress.after, deltasAt, hd, absorbedBy, Call.entries]
      omega

theorem pullBlobs_stops {p : PullProgress T} {blobs : List SealedDelta}
    (h : ¬ p.engine.Accepts (deltasAt json aead client envs p.consumed blobs)) :
    ∃ before blob after d, blobs = before ++ blob :: after ∧
      client.disposition json aead blob = .delta d ∧
      p.engine.Accepts (deltasAt json aead client envs p.consumed before) ∧
      (PullProgress.after json aead client envs p before).engine.log.compactionEpoch <
        d.compactionEpoch ∧
      pullBlobs json aead client envs p blobs =
        (PullProgress.after json aead client envs p before,
          some (.compactionEpochBehind
            (PullProgress.after json aead client envs p before).engine.log.compactionEpoch
            d.compactionEpoch)) := by
  induction blobs generalizing p with
  | nil => exact absurd trivial h
  | cons blob blobs ih =>
    rw [pullBlobs_cons]
    unfold deltasAt at h
    cases hd : client.disposition json aead blob with
    | skipped =>
      simp only [hd] at h ⊢
      obtain ⟨before, stop, after, d, rfl, hstop, hacc, hlt, hrun⟩ :=
        @ih { p with skipped := p.skipped+1, consumed := p.consumed+1 } h
      refine ⟨blob :: before, stop, after, d, rfl, hstop, by simpa [deltasAt, hd] using hacc,
        by simpa [PullProgress.after, deltasAt, hd] using hlt, ?_⟩
      rw [hrun]
      simp [PullProgress.after, deltasAt, hd]
      omega
    | malformed =>
      simp only [hd] at h ⊢
      obtain ⟨before, stop, after, d, rfl, hstop, hacc, hlt, hrun⟩ :=
        @ih { p with malformed := p.malformed+1, consumed := p.consumed+1 } h
      refine ⟨blob :: before, stop, after, d, rfl, hstop, by simpa [deltasAt, hd] using hacc,
        by simpa [PullProgress.after, deltasAt, hd] using hlt, ?_⟩
      rw [hrun]
      simp [PullProgress.after, deltasAt, hd]
      omega
    | delta d =>
      simp only [hd] at h ⊢
      split
      · exact ⟨[], blob, blobs, d, rfl, hd, trivial, ‹_›, rfl⟩
      · rename_i hle
        have htail : ¬ (p.engine.call (envs p.consumed) (.mergeDelta d)).Accepts
            (deltasAt json aead client envs (p.consumed+1) blobs) :=
          fun ha => h ⟨Nat.not_lt.mp hle, ha⟩
        obtain ⟨before, stop, after, d', rfl, hstop, hacc, hlt, hrun⟩ := @ih
          { p with
            engine := p.engine.call (envs p.consumed) (.mergeDelta d)
            absorbed := p.absorbed+(forgotten p.engine.log d.ops).length
            consumed := p.consumed+1 } htail
        refine ⟨blob :: before, stop, after, d', rfl, hstop, ?_, ?_, ?_⟩
        · simpa [deltasAt, hd] using ⟨Nat.not_lt.mp hle, hacc⟩
        · simpa [PullProgress.after, deltasAt, hd] using hlt
        · rw [hrun]
          simp [PullProgress.after, deltasAt, hd, absorbedBy, Call.entries]
          omega

theorem length_deltasAt (offset : Nat) (blobs : List SealedDelta) :
    blobs.countP (fun b => client.disposition json aead b = .skipped) +
        blobs.countP (fun b => client.disposition json aead b = .malformed) +
        (deltasAt json aead client envs offset blobs).length = blobs.length := by
  induction blobs generalizing offset with
  | nil => rfl
  | cons blob blobs ih =>
    have htail := ih (offset+1)
    cases hd : client.disposition json aead blob <;>
      simp only [deltasAt, hd, List.countP_cons, List.length_cons, reduceCtorEq, decide_true,
        decide_false, if_true, if_false, Bool.false_eq_true] <;> omega

end SyncClient

/-! ## A retry -/

namespace SyncClient

/-- What a pull that succeeds has done with the page. -/
structure Delivered {T : Type} [DecidableEq T] (json : Json (DeltaEnvelope T)) (aead : Aead)
    (client : SyncClient) (e : SyncEngine T) (page : List SealedDelta)
    (deltas : List (Env T × Call T)) (pulled : SyncClient × SyncEngine T)
    (report : PullProgress T) : Prop where
  cursor : pulled.1 = { client with pullCursor := client.pullCursor+page.length }
  applied : pulled.2 = e.calls deltas
  skipped : report.skipped = page.countP (fun b => client.disposition json aead b = .skipped)
  malformed :
    report.malformed = page.countP (fun b => client.disposition json aead b = .malformed)
  total : report.skipped+report.malformed+deltas.length = page.length
  absorbed : report.absorbed = e.absorbedBy deltas
  absorbedNew : e.Quiet deltas → report.absorbed = (forgotten e.log (offered deltas)).length

/-- What a pull that meets a delta of an epoch ahead has done: the deltas before it are
applied, and the client is as it was. -/
structure Stopped {T : Type} [DecidableEq T] (json : Json (DeltaEnvelope T)) (aead : Aead)
    (client : SyncClient) (e : SyncEngine T) (page : List SealedDelta)
    (applied : List (Env T × Call T)) (before : List SealedDelta)
    (pulled : SyncClient × SyncEngine T) (cause : ClientSyncError) : Prop where
  client_eq : pulled.1 = client
  engine : pulled.2 = e.calls applied
  split : ∃ blob after d, page = before ++ blob :: after ∧
    client.disposition json aead blob = .delta d ∧
    pulled.2.log.compactionEpoch < d.compactionEpoch ∧
    cause = .sync (.compactionEpochBehind pulled.2.log.compactionEpoch d.compactionEpoch)

section
variable {T : Type} [DecidableEq T] {json : Json (DeltaEnvelope T)} {aead : Aead}
  {client : SyncClient} {envs : Nat → Env T}

theorem pullServed_delivered {e : SyncEngine T} {held : List SealedDelta}
    (h : e.Accepts (pageDeltas json aead client envs held)) :
    ∃ report,
      client.pullServed json aead e (some (serve held client.pullCursor)) envs =
          ({ client with pullCursor := client.pullCursor+(held.drop client.pullCursor).length },
            e.calls (pageDeltas json aead client envs held), .ok report) ∧
        Delivered json aead client e (held.drop client.pullCursor)
          (pageDeltas json aead client envs held)
          ({ client with pullCursor := client.pullCursor+(held.drop client.pullCursor).length },
            e.calls (pageDeltas json aead client envs held)) report := by
  have hwalk := @pullBlobs_accepts _ _ json aead client envs ⟨e, 0, 0, 0, client.pullCursor⟩
    (held.drop client.pullCursor) h
  have hlength := @length_deltasAt _ _ json aead client envs client.pullCursor
    (held.drop client.pullCursor)
  refine ⟨PullProgress.after json aead client envs ⟨e, 0, 0, 0, client.pullCursor⟩
    (held.drop client.pullCursor), ?_, rfl, rfl, ?_, ?_, ?_, ?_, ?_⟩
  · simp only [pullServed, serve, hwalk]
    simp [PullProgress.after, pageDeltas]
  · simp [PullProgress.after]
  · simp [PullProgress.after]
  · simpa [PullProgress.after, pageDeltas] using hlength
  · simp [PullProgress.after, pageDeltas]
  · intro hquiet
    have habsorbed := hquiet.absorbedBy fun c hc => absorbs_deltasAt hc
    simpa [PullProgress.after, pageDeltas] using habsorbed

theorem pullServed_stopped {e : SyncEngine T} {held : List SealedDelta}
    (h : ¬ e.Accepts (pageDeltas json aead client envs held)) :
    ∃ cause before,
      client.pullServed json aead e (some (serve held client.pullCursor)) envs =
          (client, e.calls (deltasAt json aead client envs client.pullCursor before),
            .error cause) ∧
        e.Accepts (deltasAt json aead client envs client.pullCursor before) ∧
        Stopped json aead client e (held.drop client.pullCursor)
          (deltasAt json aead client envs client.pullCursor before) before
          (client, e.calls (deltasAt json aead client envs client.pullCursor before)) cause := by
  obtain ⟨before, blob, after, d, hsplit, hd, hacc, hlt, hrun⟩ :=
    @pullBlobs_stops _ _ json aead client envs ⟨e, 0, 0, 0, client.pullCursor⟩
      (held.drop client.pullCursor) h
  refine ⟨_, before, ?_, hacc, rfl, rfl, blob, after, d, hsplit, hd, hlt, rfl⟩
  simp only [pullServed, serve, hrun]
  rfl

end

/-- On success every delta of the page is applied, in order and once, every blob is counted,
and the cursor is past the page. On an error the client is as before, and once the recovering
calls `cs` have brought the epoch up a later pull from its cursor reaches what `cs` and one
pull reach, as long as what the failed pull took in stays listed until it is offered again. A
compaction forgets it: of what was not offered since, the next call takes every foreign op. -/
theorem pull_recovers {T : Type} [DecidableEq T] (json : Json (DeltaEnvelope T))
    (aead : Aead) (client : SyncClient) (e : SyncEngine T) (held : List SealedDelta)
    (envs : Nat → Env T) :
    client.pullServed json aead e none envs = (client, e, .error .transport) ∧
      (∀ client' e' report,
        client.pullServed json aead e (some (serve held client.pullCursor)) envs =
            (client', e', .ok report) →
          Delivered json aead client e (held.drop client.pullCursor)
            (pageDeltas json aead client envs held) (client', e') report) ∧
      ∀ client' failed cause,
        client.pullServed json aead e (some (serve held client.pullCursor)) envs =
            (client', failed, .error cause) →
          ∃ before, Stopped json aead client e (held.drop client.pullCursor)
              (deltasAt json aead client envs client.pullCursor before) before
              (client', failed) cause ∧
            ∀ (cs cs' : List (Env T × Call T)) (more : List SealedDelta)
              (envs' envs'' : Nat → Env T),
              (∀ c ∈ cs, c.2.absorbs = true) → cs'.map Prod.snd = cs.map Prod.snd →
              (∀ c ∈ pageDeltas json aead client envs' (held ++ more),
                c.2.epoch ≤ u64Max ∧ c.2.epoch ≤ (failed.calls cs).log.compactionEpoch) →
              (e.Remembers (deltasAt json aead client envs client.pullCursor before) cs
                  (deltasAt json aead client envs' client.pullCursor before)
                  (pageDeltas json aead client envs' (held ++ more)) →
                ∃ last retried report direct report',
                  client'.pullServed json aead (failed.calls cs)
                      (some (serve (held ++ more) client'.pullCursor)) envs' =
                    (last, retried, .ok report) ∧
                  client.pullServed json aead (e.calls cs')
                      (some (serve (held ++ more) client.pullCursor)) envs'' =
                    (last, direct, .ok report') ∧
                  SameOps retried.log direct.log ∧
                  (Agreeing (offered (cs ++ pageDeltas json aead client envs' (held ++ more))) →
                    retried.Alike direct)) ∧
              ∀ early c late d later,
                deltasAt json aead client envs client.pullCursor before ++ cs ++
                    pageDeltas json aead client envs' (held ++ more) =
                  early ++ c :: late ++ d :: later →
                (e.calls early).compacts c.1 c.2 = true →
                ∀ o ∈ d.2.entries, o.replicaId ≠ e.log.replicaId →
                  o.key ∉ (offered late).map SyncOp.key →
                  o.key ∈ (forgotten (e.calls (early ++ c :: late)).log d.2.entries).map
                    SyncOp.key := by
  refine ⟨rfl, ?_, ?_⟩
  · intro client' e' report hpull
    by_cases hacc : e.Accepts (pageDeltas json aead client envs held)
    · obtain ⟨report', hrun, hdelivered⟩ := pullServed_delivered hacc
      rw [hrun] at hpull
      obtain ⟨rfl, rfl, hreport⟩ := by simpa only [Prod.mk.injEq] using hpull
      obtain rfl := Except.ok.inj hreport
      exact hdelivered
    · obtain ⟨cause, before, hrun, _, _⟩ := pullServed_stopped hacc
      rw [hrun] at hpull
      simp at hpull
  · intro client' failed cause hpull
    have hrefused : ¬ e.Accepts (pageDeltas json aead client envs held) := by
      intro hacc
      obtain ⟨report', hrun, _⟩ := pullServed_delivered hacc
      rw [hrun] at hpull
      simp at hpull
    obtain ⟨cause', before, hrun, hacc, hstopped⟩ := pullServed_stopped hrefused
    rw [hrun] at hpull
    obtain ⟨rfl, rfl, hcause⟩ := by simpa only [Prod.mk.injEq] using hpull
    obtain rfl := Except.error.inj hcause
    refine ⟨before, hstopped, ?_⟩
    intro cs cs' more envs' envs'' hcs hsame hremoved
    obtain ⟨blob, after, d, hsplit, _, _, _⟩ := hstopped.split
    have hbefore : ∀ c ∈ deltasAt json aead client envs client.pullCursor before,
        c.2.absorbs = true := fun c hc => absorbs_deltasAt hc
    have hpage : ∀ c ∈ pageDeltas json aead client envs' (held ++ more), c.2.absorbs = true :=
      fun c hc => absorbs_deltasAt hc
    have hafter : ∀ c ∈ cs ++ pageDeltas json aead client envs' (held ++ more),
        c.2.absorbs = true := fun c hc => (List.mem_append.mp hc).elim (hcs c) (hpage c)
    constructor
    · intro hremembers
      have hepoch := hremembers.epoch hacc hbefore hcs
      -- the other readings of the direct run change nothing that the logs are compared by
      have hdirect := (SyncEngine.Alike.refl e).calls hcs hsame
      have hpages : (pageDeltas json aead client envs'' (held ++ more)).map Prod.snd =
          (pageDeltas json aead client envs' (held ++ more)).map Prod.snd := calls_deltasAt _ _ _
      have hremoved' : ∀ c ∈ pageDeltas json aead client envs'' (held ++ more),
          c.2.epoch ≤ u64Max ∧ c.2.epoch ≤ (e.calls cs').log.compactionEpoch := by
        intro c hc
        have hmem := List.mem_map_of_mem (f := Prod.snd) hc
        rw [hpages] at hmem
        obtain ⟨c', hc', heq⟩ := List.mem_map.mp hmem
        have hle := hremoved c' hc'
        rw [← calls_append, hepoch, hdirect.epoch, heq] at hle
        exact hle
      obtain ⟨report, hretried, _⟩ := pullServed_delivered (accepts_of_le hpage hremoved)
      obtain ⟨report', hdirectly, _⟩ := pullServed_delivered
        (accepts_of_le (fun c hc => absorbs_deltasAt hc) hremoved')
      refine ⟨_, _, report, _, report', hretried, hdirectly, ?_⟩
      have hopens : pageDeltas json aead client envs' (held ++ more) =
          deltasAt json aead client envs' client.pullCursor before ++
            deltasAt json aead client envs' (client.pullCursor+before.length)
              (blob :: after ++ more.drop (client.pullCursor-held.length)) := by
        rw [pageDeltas, List.drop_append, hsplit, List.append_assoc, deltasAt_append]
      have hreaches := hdirect.calls hpage hpages
      rw [hopens] at hremembers hafter
      have hboth := hremembers.alike hacc hbefore hafter fun o ho => by
        rwa [offered_deltasAt] at ho ⊢
      rw [← hopens] at hboth
      simp only [calls_append] at hboth ⊢
      exact ⟨⟨hboth.1.ids.trans hreaches.ids, hboth.1.seen.trans hreaches.seen⟩,
        fun hagree => (hboth.2 hagree).trans hreaches⟩
    · intro early c late d later hrun hcompacts o ho hforeign hsince
      have hall : ∀ b ∈ early ++ c :: late ++ d :: later, b.2.absorbs = true := by
        rw [← hrun, List.append_assoc]
        exact fun b hb => (List.mem_append.mp hb).elim (hbefore b) (hafter b)
      rw [calls_append]
      refine taken_after_compaction hcompacts (fun b hb => hall b ?_) ho ?_ hsince
      · exact List.mem_append_left _ (List.mem_append_right _ (List.mem_cons_of_mem _ hb))
      · rwa [calls_log_replicaId]

/-! Relay pages with a forged blob, one that is no delta, a delta, and a delta of a later epoch. -/

namespace Hostile

def superseded : DeltaEnvelope Nat :=
  ⟨0, 0, [⟨2, 1, 0, .add 5 9⟩, ⟨2, 2, 0, .supersede 5 6 [9]⟩]⟩

def supersededText : String :=
  "\x7b\"compaction_epoch\":0,\"since_seq\":0,\"ops\":[" ++
  "\x7b\"replica_id\":\"00000000-0000-0000-0000-000000000002\",\"seq\":1,\"created_at\":" ++
  "\"1970-01-01T00:00:00Z\",\"op\":\x7b\"kind\":\"add\",\"value\":5,\"tag\":" ++
  "\"00000000-0000-0000-0000-000000000009\"\x7d\x7d," ++
  "\x7b\"replica_id\":\"00000000-0000-0000-0000-000000000002\",\"seq\":2,\"created_at\":" ++
  "\"1970-01-01T00:00:00Z\",\"op\":\x7b\"kind\":\"supersede\",\"value\":5,\"successor\":6," ++
  "\"observed_tags\":[\"00000000-0000-0000-0000-000000000009\"]\x7d\x7d]\x7d"

def ahead : DeltaEnvelope Nat := ⟨5, 0, []⟩

def aheadText : String := "\x7b\"compaction_epoch\":5,\"since_seq\":0,\"ops\":[]\x7d"

def json : Json (DeltaEnvelope Nat) :=
  Json.pair superseded ahead supersededText aheadText (by decide +kernel)

def sealedText (text : String) : SealedDelta :=
  ⟨0, text.toUTF8.data.toList ++ List.replicate 16 0⟩

def held : List SealedDelta :=
  [⟨0, []⟩, sealedText "not a delta", sealedText supersededText, sealedText aheadText]

def client : SyncClient := SyncClient.new 0 0

def engine (policy : CompactionPolicy) : SyncEngine Nat :=
  (SyncEngine.withReplicaId 1).withCompactionPolicy policy

def envs : Nat → Env Nat := fun _ => .atEpoch

def pulled (policy : CompactionPolicy) (held : List SealedDelta) :
    SyncClient × SyncEngine Nat × Except ClientSyncError (PullProgress Nat) :=
  client.pullServed json .tagged (engine policy) (some (serve held client.pullCursor)) envs

def recovery : List (Env Nat × Call Nat) := [(.atEpoch, .merge ⟨3, 0, 5, [], ∅⟩)]

def retried (policy : CompactionPolicy) (held more : List SealedDelta) :
    SyncClient × SyncEngine Nat × Except ClientSyncError (PullProgress Nat) :=
  client.pullServed json .tagged ((pulled policy held).2.1.calls recovery)
    (some (serve (held ++ more) client.pullCursor)) envs

def direct (policy : CompactionPolicy) (held more : List SealedDelta) :
    SyncClient × SyncEngine Nat × Except ClientSyncError (PullProgress Nat) :=
  client.pullServed json .tagged ((engine policy).calls recovery)
    (some (serve (held ++ more) client.pullCursor)) envs

/-- The later epoch comes before any delta the engine could take in. -/
def stalled : List SealedDelta := [⟨0, []⟩, sealedText "not a delta", sealedText aheadText]

end Hostile

open Hostile

theorem pull_recovers_hostile :
    (pulled (.fixed 0) stalled).2.2 =
        .error (.sync (.compactionEpochBehind 0 5)) ∧
      SameOps (retried (.fixed 0) stalled held).2.1.log
        (direct (.fixed 0) stalled held).2.1.log ∧
      (retried (.fixed 0) stalled held).2.1.log.ops.map SyncOp.key =
        [(1, 1)] := by
  have hpulled : pulled (.fixed 0) stalled = (client,
      (pulled (.fixed 0) stalled).2.1,
      .error (.sync (.compactionEpochBehind 0 5))) := by decide +kernel
  obtain ⟨before, hstopped, hreach⟩ := (pull_recovers json .tagged client
    (engine (.fixed 0)) stalled envs).2.2 _ _ _ hpulled
  obtain ⟨blob, after, d, hsplit, _⟩ := hstopped.split
  have hsplit' : stalled = before ++ blob :: after := hsplit
  have hlength := congrArg List.length hsplit'
  rw [List.length_append, List.length_cons] at hlength
  have hlt : before.length < 3 := by
    have hthree : stalled.length = 3 := rfl
    omega
  have htake : before = stalled.take before.length := by rw [hsplit', List.take_left]
  have hfirst : ∀ n < 3, (deltasAt json .tagged client envs 0
      (stalled.take n)).length = 0 := by decide +kernel
  have hnone : deltasAt json .tagged client envs 0 before = [] := by
    rw [htake]
    exact List.length_eq_zero_iff.mp (hfirst _ hlt)
  obtain ⟨_, _, _, _, _, hretried, hdirect, hsame, _⟩ := (hreach recovery recovery
    held envs envs (by decide +kernel) rfl (by decide +kernel)).1
    (.nothingNew (hnone ▸ trivial) (hnone ▸ fun o ho => absurd ho List.not_mem_nil))
  refine ⟨by rw [hpulled], ?_, by decide +kernel⟩
  have hr : retried (.fixed 0) stalled held = _ := hretried
  have hd : direct (.fixed 0) stalled held = _ := hdirect
  rw [hr, hd]
  exact hsame

/-- Under a policy that compacts at once the retry takes the supersession in a second time. -/
theorem retry_reabsorbs_applied_prefix :
    (pulled (.fixed 0) held).1 = client ∧
      (pulled (.fixed 0) held).2.2 =
        .error (.sync (.compactionEpochBehind 1 5)) ∧
      (retried (.fixed 0) held []).2.2.isOk = true ∧
      (direct (.fixed 0) held []).2.2.isOk = true ∧
      (retried (.fixed 0) held []).2.1.log.ops.map SyncOp.key = [(1, 2), (1, 3)] ∧
      (direct (.fixed 0) held []).2.1.log.ops.map SyncOp.key = [(1, 1)] ∧
      ¬ SameOps (retried (.fixed 0) held []).2.1.log
        (direct (.fixed 0) held []).2.1.log ∧
      (retried (.fixed 0) held []).2.1.state.2.2 = [(5, 6), (5, 6)] ∧
      (direct (.fixed 0) held []).2.1.state.2.2 = [(5, 6)] := by
  refine ⟨by decide +kernel, by decide +kernel, by decide +kernel, by decide +kernel,
    by decide +kernel, by decide +kernel, fun hsame => ?_, by decide +kernel, by decide +kernel⟩
  exact absurd hsame.ids.length_eq (by decide +kernel)

end SyncClient

end Knowledge.Sync
