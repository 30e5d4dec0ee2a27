import Mathlib

/-!
# Sequences that Stop at the First Failure

Of a planned sequence those before the first one that fails are completed. The
first one that fails is attempted as well, and nothing after it. What is planned
after a failure makes no difference.
-/

namespace Berberis.Lib

open List

variable {α : Type} (fails : α → Bool)

def completed (q : List α) : List α := q.takeWhile fun x => !fails x

def attempted (q : List α) : List α := completed fails q ++ (q.find? fails).toList

variable {fails} {q r : List α} {x : α}

section

variable (h : q.find? fails = none)
include h

theorem completed_append_of_none : completed fails (q ++ r) = q ++ completed fails r := by
  refine takeWhile_append_of_pos fun y hy => ?_
  simpa using find?_eq_none.1 h y hy

theorem completed_of_none : completed fails q = q := by
  have happ := completed_append_of_none (r := []) h
  rwa [append_nil, show completed fails [] = [] from rfl, append_nil] at happ

theorem attempted_of_none : attempted fails q = q := by
  unfold attempted
  rw [h, completed_of_none h, Option.toList_none, append_nil]

theorem attempted_append_of_none : attempted fails (q ++ r) = q ++ attempted fails r := by
  unfold attempted
  rw [completed_append_of_none h, find?_append, h, Option.none_or, append_assoc]

end

theorem find?_append_of_some (h : q.find? fails = some x) : (q ++ r).find? fails = some x := by
  rw [find?_append, h, Option.some_or]

theorem completed_append_of_some (h : q.find? fails = some x) :
    completed fails (q ++ r) = completed fails q := by
  induction q with
  | nil => cases h
  | cons y q ih =>
    unfold completed at ih ⊢
    rw [cons_append, takeWhile_cons, takeWhile_cons]
    rw [find?_cons] at h
    cases hy : fails y with
    | false =>
      rw [hy] at h
      simp [ih h]
    | true => rfl

theorem attempted_append_of_some (h : q.find? fails = some x) :
    attempted fails (q ++ r) = attempted fails q := by
  unfold attempted
  rw [completed_append_of_some h, find?_append_of_some h, h]

theorem rel_of_mem_attempted {R : α → α → Prop} (hrefl : ∀ y, R y y) (hq : q.Pairwise R)
    (h : q.find? fails = some x) {y : α} (hy : y ∈ attempted fails q) : R y x := by
  obtain ⟨hx, before, after, rfl, hbef⟩ := find?_eq_some_iff_append.1 h
  have hnone : before.find? fails = none := find?_eq_none.2 fun z hz => by
    simpa using hbef z hz
  rw [attempted_append_of_none hnone] at hy
  simp only [attempted, completed, takeWhile_cons, hx, Bool.not_true, Bool.false_eq_true,
    if_false, find?_cons_of_pos, Option.toList_some, nil_append, mem_append,
    mem_singleton] at hy
  rcases hy with hy | rfl
  · exact (pairwise_append.1 hq).2.2 y hy x (mem_cons_self ..)
  · exact hrefl y

end Berberis.Lib
