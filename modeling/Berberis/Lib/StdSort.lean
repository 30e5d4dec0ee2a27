import Mathlib

/-!
# Unstable Sorting

`std::sort` puts the elements of a list in the order of a comparison, and
leaves open in what order equivalent elements come. It is a parameter of the
programs that use it: whatever is proved holds for every such function.
-/

namespace Berberis.Lib

/-- A comparison by which a list can be sorted: what is not before something
    else comes in an order of its own. -/
structure StrictWeakOrder {α : Type} (lt : α → α → Bool) : Prop where
  asymm : ∀ x y, lt x y = true → lt y x = false
  trans : ∀ x y z, lt y x = false → lt z y = false → lt z x = false

theorem strictWeakOrder_of_key {α : Type} (key : α → Nat) :
    StrictWeakOrder fun x y => decide (key x < key y) := by
  refine ⟨fun x y h => ?_, fun x y z h h' => ?_⟩
  · simp only [decide_eq_true_eq, decide_eq_false_iff_not] at h ⊢
    omega
  · simp only [decide_eq_false_iff_not] at h h' ⊢
    omega

/-- The same elements, none in front of one that is before it. -/
structure StdSort where
  sort : {α : Type} → (α → α → Bool) → List α → List α
  perm : ∀ {α : Type} (lt : α → α → Bool) (xs : List α), (sort lt xs).Perm xs
  sorted : ∀ {α : Type} (lt : α → α → Bool) (xs : List α), StrictWeakOrder lt →
    (sort lt xs).Pairwise fun x y => lt y x = false

def StdSort.insertion : StdSort where
  sort lt xs := xs.insertionSort fun x y => lt y x = false
  perm _ xs := List.perm_insertionSort _ xs
  sorted lt xs h :=
    letI : Std.Total fun x y => lt y x = false :=
      ⟨fun x y => by
        cases hlt : lt y x with
        | false => exact Or.inl rfl
        | true => exact Or.inr (h.asymm y x hlt)⟩
    letI : IsTrans _ fun x y => lt y x = false := ⟨h.trans⟩
    List.pairwise_insertionSort _ xs

end Berberis.Lib
