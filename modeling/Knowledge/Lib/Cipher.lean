import Mathlib.Logic.Basic

/-!
Authenticated encryption taken as ideal: what is sealed opens under the key and the
associated data it was sealed with, and under nothing else. Keys may be sealed under keys,
and whoever knows some keys comes to know those that can be unwrapped from them.
-/

set_option autoImplicit false

namespace Knowledge.Cipher

structure Sealed (Key Nonce Aad α : Type) where
  key : Key
  nonce : Nonce
  aad : Aad
  plain : α
  deriving DecidableEq

namespace Sealed

variable {Key Nonce Aad α : Type} [DecidableEq Key] [DecidableEq Aad]

def openWith (c : Sealed Key Nonce Aad α) (key : Key) (aad : Aad) : Option α :=
  if c.key = key ∧ c.aad = aad then some c.plain else none

theorem openWith_eq_some {c : Sealed Key Nonce Aad α} {key : Key} {aad : Aad} {p : α} :
    c.openWith key aad = some p ↔ c.key = key ∧ c.aad = aad ∧ c.plain = p := by
  unfold openWith
  split
  · rename_i h
    simp [h.1, h.2]
  · rename_i h
    simp only [reduceCtorEq, false_iff]
    exact fun hall => h ⟨hall.1, hall.2.1⟩

@[simp] theorem openWith_mk (key : Key) (nonce : Nonce) (aad : Aad) (p : α) :
    (⟨key, nonce, aad, p⟩ : Sealed Key Nonce Aad α).openWith key aad = some p :=
  openWith_eq_some.mpr ⟨rfl, rfl, rfl⟩

theorem openWith_eq_none_of_ne {c : Sealed Key Nonce Aad α} {key : Key} (aad : Aad)
    (h : c.key ≠ key) : c.openWith key aad = none := by
  rw [openWith, if_neg]
  exact fun hall => h hall.1

end Sealed

/-- The keys that can be had from some that are known, by unwrapping what lies at hand. -/
inductive Known {Key : Type} (base : Key → Prop) (wraps : Key → Key → Prop) : Key → Prop where
  | base {k : Key} : base k → Known base wraps k
  | unwrap {k k' : Key} : Known base wraps k → wraps k k' → Known base wraps k'

/-- A key that is neither known from the start nor wrapped anywhere stays unknown. -/
theorem not_known {Key : Type} {base : Key → Prop} {wraps : Key → Key → Prop} {k : Key}
    (hbase : ¬base k) (hwraps : ∀ k', ¬wraps k' k) : ¬Known base wraps k := by
  rintro (h | ⟨-, h⟩)
  · exact hbase h
  · exact hwraps _ h

end Knowledge.Cipher
