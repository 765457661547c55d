import Mathlib.Data.Set.Finite.List

/-!
Directed graphs without a cycle: when edges into one vertex may be added, and that a search along
the edges of a finite one ends.
-/

set_option autoImplicit false

namespace Knowledge.Digraph
open Relation

section

variable {V : Type} {R : V → V → Prop}

def Acyclic (R : V → V → Prop) : Prop := ∀ a, ¬TransGen R a a

/-- The graph with an edge from each of some vertices into one vertex. -/
def WithEdgesTo (R : V → V → Prop) (into : V → Prop) (c : V) (a b : V) : Prop :=
  R a b ∨ (into a ∧ b = c)

variable {into : V → Prop} {c : V}

/-- A walk in the larger graph has no new edge, or gets to a first one and leaves a last one. -/
theorem reach_withEdgesTo {a b : V} (h : ReflTransGen (WithEdgesTo R into c) a b) :
    ReflTransGen R a b ∨ (∃ p, into p ∧ ReflTransGen R a p) ∧ ReflTransGen R c b := by
  induction h with
  | refl => exact .inl .refl
  | @tail b d _ hstep ih =>
    obtain hold | ⟨hb, rfl⟩ := hstep
    · obtain ih | ⟨hp, ih⟩ := ih
      · exact .inl (ih.tail hold)
      · exact .inr ⟨hp, ih.tail hold⟩
    · obtain ih | ⟨hp, -⟩ := ih
      · exact .inr ⟨⟨b, hb, ih⟩, .refl⟩
      · exact .inr ⟨hp, .refl⟩

/-- New edges into a vertex close a cycle just in case one of them starts where the vertex
leads to. -/
theorem acyclic_withEdgesTo_iff (h : Acyclic R) :
    Acyclic (WithEdgesTo R into c) ↔ ∀ p, into p → ¬ReflTransGen R c p := by
  constructor
  · intro hnew p hp hreach
    have hold : ReflTransGen (WithEdgesTo R into c) c p :=
      hreach.lift id fun _ _ => .inl
    exact hnew c (TransGen.tail' hold (.inr ⟨hp, rfl⟩))
  · intro hback a hcycle
    obtain ⟨b, hreach, hstep⟩ := TransGen.tail'_iff.mp hcycle
    obtain hold | ⟨hb, rfl⟩ := hstep
    · obtain hreach | ⟨⟨p, hp, hap⟩, hcb⟩ := reach_withEdgesTo hreach
      · exact h a (TransGen.tail' hreach hold)
      · exact hback p hp ((hcb.tail hold).trans hap)
    · obtain hreach | ⟨⟨p, hp, hap⟩, -⟩ := reach_withEdgesTo hreach
      · exact hback b hb hreach
      · exact hback p hp hap

theorem Acyclic.congr {S : V → V → Prop} (h : ∀ a b, R a b ↔ S a b) : Acyclic R ↔ Acyclic S := by
  have hsame : R = S := funext fun a => funext fun b => propext (h a b)
  rw [hsame]

/-- Where the vertices with an edge out of them are finitely many, every walk along the edges
comes to an end. -/
theorem Acyclic.acc (h : Acyclic R) (vertices : List V) (hfin : ∀ a b, R a b → a ∈ vertices)
    (a : V) : Acc (flip R) a := by
  have hwf : WellFounded fun x y : {v // v ∈ vertices} => TransGen R y.1 x.1 := by
    have : Finite {v // v ∈ vertices} := (List.finite_toSet vertices).to_subtype
    have : IsTrans {v // v ∈ vertices} fun x y => TransGen R y.1 x.1 :=
      ⟨fun _ _ _ h₁ h₂ => h₂.trans h₁⟩
    have : Std.Irrefl fun x y : {v // v ∈ vertices} => TransGen R y.1 x.1 := ⟨fun x => h x.1⟩
    exact Finite.wellFounded_of_trans_of_irrefl _
  have hin : ∀ x : {v // v ∈ vertices}, Acc (flip R) x.1 := by
    intro x
    induction x using hwf.induction with
    | _ x ih =>
      refine .intro _ fun b hb => ?_
      by_cases hmem : b ∈ vertices
      · exact ih ⟨b, hmem⟩ (.single hb)
      · exact .intro _ fun d hd => absurd (hfin b d hd) hmem
  exact .intro _ fun b hb => hin ⟨a, hfin a b hb⟩ |>.inv hb

end

end Knowledge.Digraph
