import Knowledge.Agent.Proposals

/-!
Runs of the proposal store: what one call can do to a proposal, and what follows for every
sequence of calls as the clock goes on.
-/

set_option autoImplicit false

namespace Knowledge.Agent
open Knowledge.Transition
open Knowledge.Sync (Uuid)

inductive Call (C : Type) where
  | submitObservation (p : AgentProposal C ObservationProposal)
  | submitConcept (p : AgentProposal C ConceptProposal)
  | submitRelation (p : AgentProposal C RelationProposal)
  | submitSummary (p : AgentProposal C SummaryProposal)
  | recordCorroboration (id : Uuid)
  | review (id : Uuid) (policy : AutoPromotionPolicy C)
  | promote (id : Uuid)
  | reject (id : Uuid) (reason : String)

section

variable {C : Type}

def Call.run (conf : Confidence C) (s : ProposalStore C) (now : Int) : Call C → ProposalStore C
  | submitObservation p => (ProposalStore.submitObservation conf s p).1
  | submitConcept p => (ProposalStore.submitConcept conf s p).1
  | submitRelation p => (ProposalStore.submitRelation conf s p).1
  | submitSummary p => (ProposalStore.submitSummary conf s p).1
  | recordCorroboration id => (ProposalStore.recordCorroboration s id now).1
  | review id policy => (ProposalStore.review conf s id policy now).1
  | promote id => (ProposalStore.promote s id now).1
  | reject id reason => (ProposalStore.reject s id reason now).1

/-- The time to live of the proposal, if it has one, is not over. -/
def StoredProposal.Fresh (p : StoredProposal C) (now : Int) : Prop :=
  ∀ ttl ∈ p.ttl, now-p.submittedAt < ttl

theorem StoredProposal.fresh_iff (p : StoredProposal C) (now : Int) :
    p.Fresh now ↔ p.isExpired now = false := by
  unfold Fresh isExpired
  cases p.ttl with
  | none => simp
  | some ttl =>
    simp only [Option.mem_def, Option.some.injEq, forall_eq', Bool.and_eq_false_iff,
      decide_eq_false_iff_not]
    omega

/-- How a call reaches `Promoted`: from review, or inside the call that reviews. -/
def Admitted (call : Call C) (id : Uuid) (p : StoredProposal C) (now : Int) : Prop :=
  (call = .promote id ∧ p.state = .underReview) ∨
    ((∃ policy, call = .review id policy) ∧ p.state = .proposed ∧ p.Fresh now)

structure Moves (call : Call C) (id : Uuid) (now : Int) (p p' : StoredProposal C) : Prop where
  active : p.state.isTerminal = false
  ttl : p'.ttl = p.ttl
  submittedAt : p'.submittedAt = p.submittedAt
  promoted : p'.state = .promoted → p'.updatedAt = now ∧ Admitted call id p now

theorem lookup_withProposal {R : Type} (s : ProposalStore C) (id k : Uuid)
    (f : StoredProposal C → StoredProposal C × Except LifecycleError R) :
    AList.lookup k (s.withProposal id f).1 =
      if k = id then (s.lookup id).map fun p => (f p).1 else s.lookup k := by
  unfold ProposalStore.withProposal
  cases h : s.lookup id with
  | none =>
    dsimp only
    split
    · rename_i hk
      rw [hk, h]
      rfl
    · rfl
  | some p => exact Table.lookup_insert_ite s id k _

theorem eq_of_lookup_withProposal {R : Type} {s : ProposalStore C} {id : Uuid}
    {f : StoredProposal C → StoredProposal C × Except LifecycleError R} {p p' : StoredProposal C}
    (hp : s.lookup id = some p) (hp' : AList.lookup id (s.withProposal id f).1 = some p') :
    p' = (f p).1 := by
  rw [lookup_withProposal, if_pos rfl, hp] at hp'
  exact (Option.some.inj hp').symm

theorem moves_recordCorroboration {s : ProposalStore C} {id : Uuid} {now : Int}
    {p p' : StoredProposal C} (hp : s.lookup id = some p)
    (hp' : AList.lookup id (s.recordCorroboration id now).1 = some p') :
    p' = p ∨ Moves (.recordCorroboration id) id now p p' := by
  rw [eq_of_lookup_withProposal hp hp']
  split
  · exact .inl rfl
  · rename_i hactive
    rw [Bool.not_eq_true] at hactive
    have hnot : p.state ≠ .promoted := fun h => by rw [h] at hactive; cases hactive
    right
    split
    · exact ⟨hactive, rfl, rfl, nofun⟩
    · exact ⟨hactive, rfl, rfl, fun h => absurd h hnot⟩

theorem moves_review {conf : Confidence C} {s : ProposalStore C} {id : Uuid}
    {policy : AutoPromotionPolicy C} {now : Int} {p p' : StoredProposal C}
    (hp : s.lookup id = some p) (hp' : AList.lookup id (s.review conf id policy now).1 = some p') :
    p' = p ∨ Moves (.review id policy) id now p p' := by
  rw [eq_of_lookup_withProposal hp hp']
  split
  · exact .inl rfl
  · rename_i hactive
    rw [Bool.not_eq_true] at hactive
    split
    · exact .inr ⟨hactive, rfl, rfl, nofun⟩
    · rename_i hfresh
      rw [Bool.not_eq_true, ← StoredProposal.fresh_iff] at hfresh
      split
      · exact .inl rfl
      · rename_i hproposed
        right
        dsimp only
        split
        · exact ⟨hactive, rfl, rfl,
            fun _ => ⟨rfl, .inr ⟨⟨policy, rfl⟩, not_not.mp hproposed, hfresh⟩⟩⟩
        · exact ⟨hactive, rfl, rfl, nofun⟩

theorem moves_promote {s : ProposalStore C} {id : Uuid} {now : Int} {p p' : StoredProposal C}
    (hp : s.lookup id = some p) (hp' : AList.lookup id (s.promote id now).1 = some p') :
    p' = p ∨ Moves (.promote id) id now p p' := by
  rw [eq_of_lookup_withProposal hp hp']
  split
  · exact .inl rfl
  · rename_i hreview
    rw [not_not] at hreview
    exact .inr ⟨by rw [hreview]; rfl, rfl, rfl, fun _ => ⟨rfl, .inl ⟨rfl, hreview⟩⟩⟩

theorem moves_reject {s : ProposalStore C} {id : Uuid} {reason : String} {now : Int}
    {p p' : StoredProposal C} (hp : s.lookup id = some p)
    (hp' : AList.lookup id (s.reject id reason now).1 = some p') :
    p' = p ∨ Moves (.reject id reason) id now p p' := by
  rw [eq_of_lookup_withProposal hp hp']
  split
  · exact .inl rfl
  · rename_i hactive
    rw [Bool.not_eq_true] at hactive
    exact .inr ⟨hactive, rfl, rfl, nofun⟩

/-- Everything a call can do at an id: nothing, submit a new proposal, or move one. -/
def Changes (call : Call C) (now : Int) (s s' : ProposalStore C) : Prop :=
  ∀ id, s'.lookup id = s.lookup id ∨
    (s.lookup id = none ∧ ∃ p', s'.lookup id = some p' ∧ p'.state = .proposed) ∨
    ∃ p p', s.lookup id = some p ∧ s'.lookup id = some p' ∧ Moves call id now p p'

theorem changes_submit {T : Type} (conf : Confidence C)
    (validate : T → Except ProposalValidationError Unit) (wrap : T → AnyPayload)
    (s : ProposalStore C) (p : AgentProposal C T) (call : Call C) (now : Int) :
    Changes call now s (s.submit conf validate wrap p).1 := by
  intro id
  unfold ProposalStore.submit
  split
  · exact .inl rfl
  · split
    · exact .inl rfl
    · rename_i hnew
      dsimp only
      rw [Table.lookup_insert_ite]
      split
      · rename_i hid
        rw [hid]
        exact .inr (.inl ⟨by simpa using hnew, _, rfl, rfl⟩)
      · exact .inl rfl

theorem changes_withProposal {R : Type} {s : ProposalStore C} {id : Uuid} {call : Call C}
    {now : Int} {f : StoredProposal C → StoredProposal C × Except LifecycleError R}
    (h : ∀ p p', s.lookup id = some p → AList.lookup id (s.withProposal id f).1 = some p' →
      p' = p ∨ Moves call id now p p') :
    Changes call now s (s.withProposal id f).1 := by
  intro k
  by_cases hk : k = id
  · subst hk
    cases hp : s.lookup k with
    | none =>
      left
      rw [lookup_withProposal, if_pos rfl, hp]
      rfl
    | some p =>
      have hp' : AList.lookup k (s.withProposal k f).1 = some (f p).1 := by
        rw [lookup_withProposal, if_pos rfl, hp]
        rfl
      obtain heq | hmoves := h p _ hp hp'
      · exact .inl (hp'.trans (congrArg some heq))
      · exact .inr (.inr ⟨p, _, rfl, hp', hmoves⟩)
  · left
    rw [lookup_withProposal, if_neg hk]

theorem Call.run_changes (conf : Confidence C) (s : ProposalStore C) (now : Int) (call : Call C) :
    Changes call now s (call.run conf s now) := by
  cases call with
  | submitObservation p => exact changes_submit conf _ _ s p _ now
  | submitConcept p => exact changes_submit conf _ _ s p _ now
  | submitRelation p => exact changes_submit conf _ _ s p _ now
  | submitSummary p => exact changes_submit conf _ _ s p _ now
  | recordCorroboration id =>
    exact changes_withProposal fun _ _ hp hp' => moves_recordCorroboration hp hp'
  | review id policy => exact changes_withProposal fun _ _ hp hp' => moves_review hp hp'
  | promote id => exact changes_withProposal fun _ _ hp hp' => moves_promote hp hp'
  | reject id reason => exact changes_withProposal fun _ _ hp hp' => moves_reject hp hp'

/-- What the lifecycle promises of a call: a terminal proposal is left alone in every field, and
one that enters `Promoted` comes out of review with its time to live not over. -/
structure Lawful (call : Call C) (now : Int) (s s' : ProposalStore C) : Prop where
  terminal : ∀ id p, s.lookup id = some p → p.state.isTerminal = true → s'.lookup id = some p
  reviewed : ∀ id p', s'.lookup id = some p' → p'.state = .promoted →
    s.lookup id = some p' ∨ ∃ p, s.lookup id = some p ∧ (p.state = .underReview ∨
      p.state = .proposed ∧ ∃ policy, call = .review id policy)
  fresh : ∀ id p', s'.lookup id = some p' → p'.state = .promoted →
    s.lookup id = some p' ∨ p'.Fresh now

/-- The call does not promote a proposal whose time to live is over. -/
def Call.Timely (s : ProposalStore C) (now : Int) : Call C → Prop
  | promote id => ∀ p ∈ s.lookup id, p.state = .underReview → p.isExpired now = false
  | _ => True

theorem Moves.fresh {call : Call C} {id : Uuid} {now : Int} {p p' : StoredProposal C}
    (h : Moves call id now p p') : p'.Fresh now ↔ p.Fresh now := by
  unfold StoredProposal.Fresh
  rw [h.ttl, h.submittedAt]

theorem lawful_of_timely (conf : Confidence C) {s : ProposalStore C} {now : Int} {call : Call C}
    (h : call.Timely s now) : Lawful call now s (call.run conf s now) where
  terminal id p hp hterminal := by
    obtain hsame | ⟨hnone, -⟩ | ⟨q, q', hq, -, hmoves⟩ := call.run_changes conf s now id
    · rw [hsame, hp]
    · rw [hnone] at hp
      cases hp
    · rw [hq] at hp
      cases hp
      rw [hmoves.active] at hterminal
      cases hterminal
  reviewed id p' hp' hpromoted := by
    obtain hsame | ⟨-, q', hq', hproposed⟩ | ⟨q, q', hq, hq', hmoves⟩ := call.run_changes conf s now id
    · exact .inl (hsame ▸ hp')
    · cases hq'.symm.trans hp'
      rw [hproposed] at hpromoted
      cases hpromoted
    · cases hq'.symm.trans hp'
      obtain ⟨-, ⟨-, hreview⟩ | ⟨hcall, hproposed, -⟩⟩ := hmoves.promoted hpromoted
      · exact .inr ⟨q, hq, .inl hreview⟩
      · exact .inr ⟨q, hq, .inr ⟨hproposed, hcall⟩⟩
  fresh id p' hp' hpromoted := by
    obtain hsame | ⟨-, q', hq', hproposed⟩ | ⟨q, q', hq, hq', hmoves⟩ := call.run_changes conf s now id
    · exact .inl (hsame ▸ hp')
    · cases hq'.symm.trans hp'
      rw [hproposed] at hpromoted
      cases hpromoted
    · cases hq'.symm.trans hp'
      right
      rw [hmoves.fresh]
      obtain ⟨-, ⟨rfl, hreview⟩ | ⟨-, -, hfresh⟩⟩ := hmoves.promoted hpromoted
      · exact (q.fresh_iff now).mpr (h q hq hreview)
      · exact hfresh

theorem timely_of_lawful {conf : Confidence C} {s : ProposalStore C} {now : Int} {call : Call C}
    (h : Lawful call now s (call.run conf s now)) : call.Timely s now := by
  cases call with
  | promote id =>
    intro p hp hreview
    have hp' : AList.lookup id (Call.run conf s now (.promote id)) =
        some { p with state := .promoted, updatedAt := now } := by
      simp only [Call.run, ProposalStore.promote, lookup_withProposal, if_true]
      rw [Option.mem_def.mp hp, Option.map_some, if_neg (not_not_intro hreview)]
    obtain hsame | hfresh := h.fresh id _ hp' rfl
    · rw [Option.mem_def.mp hp, Option.some.injEq] at hsame
      rw [hsame] at hreview
      cases hreview
    · exact (p.fresh_iff now).mp hfresh
  | _ => trivial

structure Lifecycle (C : Type) where
  store : ProposalStore C
  clock : Int

def Lifecycle.next (conf : Confidence C) (s : Lifecycle C) (a : Call C × Int) : Lifecycle C :=
  ⟨a.1.run conf s.store a.2, a.2⟩

/-- A store from its creation on: any call may come at any time, as the clock goes on. -/
def system (conf : Confidence C) : System (Lifecycle C) (Call C × Int) :=
  .ofNext (fun s => s.store = ∅) (fun s a => s.clock ≤ a.2) (Lifecycle.next conf)

/-- The promoted proposals of the store were fresh when they were promoted. -/
def PromotedFresh (s : ProposalStore C) : Prop :=
  ∀ id p, s.lookup id = some p → p.state = .promoted → p.Fresh p.updatedAt

theorem PromotedFresh.run {conf : Confidence C} {s : ProposalStore C} {now : Int}
    {call : Call C} (h : PromotedFresh s) (ht : call.Timely s now) :
    PromotedFresh (call.run conf s now) := by
  intro id p' hp' hpromoted
  obtain hsame | ⟨-, q', hq', hproposed⟩ | ⟨q, q', hq, hq', hmoves⟩ := call.run_changes conf s now id
  · exact h id p' (hsame ▸ hp') hpromoted
  · cases hq'.symm.trans hp'
    rw [hproposed] at hpromoted
    cases hpromoted
  · cases hq'.symm.trans hp'
    obtain ⟨hupdated, -⟩ := hmoves.promoted hpromoted
    rw [hupdated]
    obtain hsame | hfresh := (lawful_of_timely conf ht).fresh id _ hq' hpromoted
    · rw [hq] at hsame
      cases hsame
      have hactive := hmoves.active
      rw [hpromoted] at hactive
      cases hactive
    · exact hfresh

/-- In a run that promotes nothing whose time to live is over, canonical artifacts come of
proposals that were fresh when promoted, and the next call is lawful just when it keeps to
that condition too. -/
theorem lifecycle_lawful (conf : Confidence C) (newV5 : Uuid → Uuid → Uuid) {s : Lifecycle C}
    (h : ((system conf).restrict fun s a => a.1.Timely s.store a.2).Reachable s) :
    (∀ id artifact, s.store.promoteToCanonical newV5 id = .ok artifact →
      ∃ p, s.store.lookup id = some p ∧ p.state = .promoted ∧ p.Fresh p.updatedAt) ∧
    ∀ call now, s.clock ≤ now →
      (Lawful call now s.store (call.run conf s.store now) ↔ call.Timely s.store now) := by
  have hfresh : PromotedFresh s.store := by
    refine h.invariant (fun s => PromotedFresh s.store) ?_ ?_
    · intro s hinit id p hp
      rw [show s.store = ∅ from hinit] at hp
      cases hp
    · rintro s a t - hs ⟨⟨-, rfl⟩, htimely⟩
      exact hs.run htimely
  refine ⟨fun id artifact hok => ?_, fun call now _ => ⟨timely_of_lawful, lawful_of_timely conf⟩⟩
  unfold ProposalStore.promoteToCanonical at hok
  split at hok
  · cases hok
  · rename_i p hp
    split at hok
    · cases hok
    · rename_i hstate
      rw [not_not] at hstate
      exact ⟨p, hp, hstate, hfresh id p hp hstate⟩

end

section Examples

def hundredths : Confidence Nat := ⟨fun _ => false, fun c => c ≤ 100, fun a b => a < b⟩

def claimProposal : AgentProposal Nat ObservationProposal where
  id := 1
  scopeId := 7
  payload := ⟨"claim", "fact"⟩
  evidenceRefs := [3]
  confidence := 90
  sensitivityClass := .critical
  ttl := some 10
  supersedes := none
  contradicts := none
  agentIdentity := ⟨2, "agent", "qwen3.5-2b", "v1", none, none⟩
  createdAt := 0

def humanPolicy : AutoPromotionPolicy Nat := ⟨70, 0, .important, true⟩

def reviewCalls : List (Call Nat × Int) :=
  [(.submitObservation claimProposal, 0), (.review 1 humanPolicy, 5)]

def reviewed : Lifecycle Nat := reviewCalls.foldl (Lifecycle.next hundredths) ⟨∅, 0⟩

def promotedInTime : Lifecycle Nat := reviewed.next hundredths (.promote 1, 8)

theorem lifecycle_lawful_promoted :
    promotedInTime.store.promoteToCanonical (fun _ id => id) 1 = .ok (.observation
        ⟨1, 7, 1, "claim", "fact", .critical, [3]⟩) ∧
      ∃ p, promotedInTime.store.lookup 1 = some p ∧ p.state = .promoted ∧ p.Fresh p.updatedAt := by
  have hok : promotedInTime.store.promoteToCanonical (fun _ id => id) 1 = .ok (.observation
      ⟨1, 7, 1, "claim", "fact", .critical, [3]⟩) := by decide +kernel
  have hreviewed : ((system hundredths).restrict fun s a => a.1.Timely s.store a.2).Reachable
      reviewed :=
    Legal.reachable_restrict ⟨⟨by decide, trivial⟩, ⟨by decide +kernel, trivial⟩, trivial⟩
      (.init rfl)
  have hall : (reviewed.store.lookup 1).all (fun p => !p.isExpired 8) = true := by
    decide +kernel
  refine ⟨hok, (lifecycle_lawful hundredths (fun _ id => id) (hreviewed.step
    (a := (.promote 1, 8)) ⟨⟨by decide +kernel, rfl⟩, fun p hp _ => ?_⟩)).1 1 _ hok⟩
  rw [Option.mem_def.mp hp] at hall
  simpa using hall

/-- A proposal with a time to live of 10 is promoted at time 20. -/
theorem promote_ignores_ttl :
    ∃ s, (system hundredths).Reachable s ∧ s.clock ≤ 20 ∧
      ¬Lawful (.promote 1) 20 s.store (Call.run hundredths s.store 20 (.promote 1)) := by
  refine ⟨reviewed, Legal.reachable ⟨by decide, by decide +kernel, trivial⟩ (.init rfl),
    by decide +kernel, fun h => ?_⟩
  have hlate : (reviewed.store.lookup 1).any
      (fun p => p.state = .underReview && p.isExpired 20) = true := by decide +kernel
  obtain ⟨p, hp, hexpired⟩ := (Option.any_eq_true _ _).mp hlate
  rw [Bool.and_eq_true, decide_eq_true_eq] at hexpired
  have hfresh := timely_of_lawful h p hp hexpired.1
  rw [hexpired.2] at hfresh
  cases hfresh

end Examples

end Knowledge.Agent
