import Mathlib

/-!
# Memory of Which Parts Are Known

A memory maps addresses to cells, and a cell may be unknown. Instructions that
leave part of a register undefined are modelled by such cells: a program that
says more about a cell than another one is as good as that one, and `Below` is
the order that says so.
-/

namespace Berberis.Lib

variable {β : Type}

def Below (m n : Nat → Option β) : Prop := ∀ i x, m i = some x → n i = some x

def BelowOn (p : Nat → Prop) (m n : Nat → Option β) : Prop :=
  ∀ i, p i → ∀ x, m i = some x → n i = some x

variable {m n : Nat → Option β} {base size a : Nat}

theorem Below.on (h : Below m n) (p : Nat → Prop) : BelowOn p m n :=
  fun i _ => h i

theorem BelowOn.mono {p q : Nat → Prop} (h : BelowOn p m n) (hle : ∀ i, q i → p i) :
    BelowOn q m n :=
  fun i hi => h i (hle i hi)

theorem Below.refl (m : Nat → Option β) : Below m m := fun _ _ h => h

def InRange (base size a : Nat) : Prop := base ≤ a ∧ a < base + size

instance (base size a : Nat) : Decidable (InRange base size a) :=
  inferInstanceAs (Decidable (_ ∧ _))

def DisjointRanges (base size base' size' : Nat) : Prop :=
  base + size ≤ base' ∨ base' + size' ≤ base

instance (base size base' size' : Nat) : Decidable (DisjointRanges base size base' size') :=
  inferInstanceAs (Decidable (_ ∨ _))

theorem DisjointRanges.symm {base size base' size' : Nat}
    (h : DisjointRanges base size base' size') : DisjointRanges base' size' base size :=
  Or.symm h

def store (m : Nat → Option β) (base size : Nat) (v : Nat → Option β) : Nat → Option β :=
  fun a => if InRange base size a then v (a - base) else m a

theorem store_of_mem (m v : Nat → Option β) (h : InRange base size a) :
    store m base size v a = v (a - base) :=
  if_pos h

theorem store_of_not_mem (m v : Nat → Option β) (h : ¬ InRange base size a) :
    store m base size v a = m a :=
  if_neg h

theorem BelowOn.store {p : Nat → Prop} {m n v w : Nat → Option β} {base size : Nat}
    (h : BelowOn p m n) (hv : BelowOn (· < size) v w) :
    BelowOn (fun a => p a ∨ InRange base size a) (store m base size v) (store n base size w) := by
  intro a ha x hx
  by_cases hin : InRange base size a
  · rw [store_of_mem _ _ hin] at hx ⊢
    refine hv _ ?_ x hx
    unfold InRange at hin
    omega
  · rw [store_of_not_mem _ _ hin] at hx ⊢
    exact h a (ha.resolve_right hin) x hx

end Berberis.Lib
