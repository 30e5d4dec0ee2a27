import Mathlib

/-!
# Counted Loops with Exits

A loop over the numbers of a range whose body may fail, may end the loop or may
return from the function that the loop is in. What holds before each round and
what the ways to leave a round establish is known after the loop.
-/

namespace Berberis.Lib

/-- How a round of a loop ends: with the next one, with a break or with a return. -/
inductive Exit where
  | next
  | brk
  | ret
  deriving DecidableEq

variable {σ : Type}

/-- Rounds for `count` numbers from `start` on. A loop as a whole does not break. -/
def forExit (body : Nat → σ → Option (Exit × σ)) : (start count : Nat) → σ → Option (Exit × σ)
  | _, 0, s => some (.next, s)
  | start, count + 1, s =>
    match body start s with
    | none => none
    | some (.next, s) => forExit body (start + 1) count s
    | some (.brk, s) => some (.next, s)
    | some (.ret, s) => some (.ret, s)

def Exit.Post (next brk ret : σ → Prop) (s : σ) : Exit → Prop
  | .next => next s
  | .brk => brk s
  | .ret => ret s

theorem forExit_induct {body : Nat → σ → Option (Exit × σ)} (P : Nat → σ → Prop) (Q R : σ → Prop)
    {start count : Nat} {s : σ} (h : P start s)
    (hbody : ∀ i s, start ≤ i → i < start + count → P i s →
      ∃ x s', body i s = some (x, s') ∧ x.Post (P (i + 1)) Q R s') :
    ∃ x s', forExit body start count s = some (x, s') ∧
      (x = .next ∧ (P (start + count) s' ∨ Q s') ∨ x = .ret ∧ R s') := by
  induction count generalizing start s with
  | zero => exact ⟨.next, s, rfl, Or.inl ⟨rfl, Or.inl h⟩⟩
  | succ count ih =>
    rcases hbody start s (Nat.le_refl _) (by omega) h with ⟨x, s₁, hs₁, h₁⟩
    rw [forExit, hs₁]
    match x, h₁ with
    | .next, h₁ =>
      rcases ih h₁ fun i s hle hlt => hbody i s (by omega) (by omega) with ⟨x, s', hs', h'⟩
      refine ⟨x, s', hs', ?_⟩
      rwa [show start + (count + 1) = start + 1 + count by omega]
    | .brk, h₁ => exact ⟨.next, s₁, rfl, Or.inl ⟨rfl, Or.inr h₁⟩⟩
    | .ret, h₁ => exact ⟨.ret, s₁, rfl, Or.inr ⟨rfl, h₁⟩⟩

end Berberis.Lib
