import Mathlib

/-!
# Maps Sorted by Key

An ordered map as the list of its nodes in the order of their keys, with the
order as a field, so a map whose nodes are out of order or that has one key
twice cannot be built. Programs that walk such a map from a bound see the
list, programs that look a key up see `get?`; `mem_toList` says that these
are the same data, and everything else is stated about `get?`.
-/

namespace Berberis.Lib

open List Option

variable {κ α : Type} [LinearOrder κ]

/-- The nodes of a map, in strictly increasing order of their keys. -/
structure SortedMap (κ α : Type) [LinearOrder κ] where
  toList : List (κ × α)
  sorted : toList.Pairwise fun x y => x.1 < y.1

namespace SortedMap

def empty : SortedMap κ α := ⟨[], List.Pairwise.nil⟩

def getList (k : κ) : List (κ × α) → Option α
  | [] => none
  | x :: xs => if x.1 = k then some x.2 else getList k xs

def get? (m : SortedMap κ α) (k : κ) : Option α := getList k m.toList

/-- Put a node in its place, over the node with the same key if there is one. -/
def insertList (k : κ) (v : α) : List (κ × α) → List (κ × α)
  | [] => [(k, v)]
  | x :: xs =>
    if x.1 < k then x :: insertList k v xs
    else if x.1 = k then (k, v) :: xs
    else (k, v) :: x :: xs

variable (m : SortedMap κ α) (k : κ) (v : α) (xs : List (κ × α)) (x : κ × α) (p : α → Bool)
  (f : α → α)

theorem mem_insertList (xs : List (κ × α)) (h : x ∈ insertList k v xs) : x = (k, v) ∨ x ∈ xs := by
  induction xs with
  | nil => exact Or.inl (mem_singleton.mp h)
  | cons y ys ih =>
    simp only [insertList] at h
    split_ifs at h
    · rcases mem_cons.mp h with heq | hmem
      · exact Or.inr (heq ▸ mem_cons_self)
      · rcases ih hmem with heq | hmem
        · exact Or.inl heq
        · exact Or.inr (mem_cons_of_mem y hmem)
    · rcases mem_cons.mp h with heq | hmem
      · exact Or.inl heq
      · exact Or.inr (mem_cons_of_mem y hmem)
    · rcases mem_cons.mp h with heq | hmem
      · exact Or.inl heq
      · exact Or.inr hmem

theorem insertList_sorted
    (h : xs.Pairwise fun x y => x.1 < y.1) : (insertList k v xs).Pairwise fun x y => x.1 < y.1 := by
  induction xs with
  | nil => exact pairwise_singleton _ _
  | cons y ys ih =>
    rcases pairwise_cons.mp h with ⟨hy, hys⟩
    simp only [insertList]
    split_ifs with hlt heq
    · refine pairwise_cons.mpr ⟨fun x hx => ?_, ih hys⟩
      rcases mem_insertList k v x ys hx with rfl | hmem
      · exact hlt
      · exact hy x hmem
    · exact pairwise_cons.mpr ⟨fun x hx => heq ▸ hy x hx, hys⟩
    · have hk : k < y.1 := lt_of_le_of_ne (not_lt.mp hlt) (fun hk => heq hk.symm)
      refine pairwise_cons.mpr ⟨fun x hx => ?_, h⟩
      rcases mem_cons.mp hx with rfl | hmem
      · exact hk
      · exact lt_trans hk (hy x hmem)

def insert (m : SortedMap κ α) (k : κ) (v : α) : SortedMap κ α :=
  ⟨insertList k v m.toList, insertList_sorted k v m.toList m.sorted⟩

def erase (m : SortedMap κ α) (k : κ) : SortedMap κ α :=
  ⟨m.toList.filter (·.1 ≠ k), m.sorted.filter _⟩

def lowerBound (m : SortedMap κ α) (k : κ) : List (κ × α) :=
  m.toList.dropWhile (·.1 < k)

def upperBound (m : SortedMap κ α) (k : κ) : List (κ × α) :=
  m.toList.dropWhile (·.1 ≤ k)

theorem getList_eq_none (h : ∀ x ∈ xs, x.1 ≠ k) :
    getList k xs = none := by
  induction xs with
  | nil => rfl
  | cons y ys ih =>
    rw [getList, if_neg (h y mem_cons_self)]
    exact ih (fun x hx => h x (mem_cons_of_mem y hx))

theorem mem_iff_getList
    (h : xs.Pairwise fun x y => x.1 < y.1) : (k, v) ∈ xs ↔ getList k xs = some v := by
  induction xs with
  | nil => simp only [not_mem_nil, getList, reduceCtorEq]
  | cons y ys ih =>
    rcases pairwise_cons.mp h with ⟨hy, hys⟩
    rw [mem_cons, ih hys, getList]
    by_cases hk : y.1 = k
    · -- Further keys are larger, so the value is the one of this node.
      rw [if_pos hk, getList_eq_none k ys (fun x hx => hk ▸ (hy x hx).ne')]
      simp only [Prod.ext_iff, hk, true_and, reduceCtorEq, or_false, Option.some.injEq, eq_comm]
    · rw [if_neg hk]
      refine ⟨fun hor => hor.resolve_left (fun heq => hk ?_), Or.inr⟩
      rw [← heq]

theorem mem_toList {m : SortedMap κ α} {k : κ} {v : α} : (k, v) ∈ m.toList ↔ m.get? k = some v :=
  mem_iff_getList k v m.toList m.sorted

theorem get?_empty : (empty : SortedMap κ α).get? k = none := rfl

theorem getList_insertList (k l : κ) (v : α) (xs : List (κ × α)) :
    getList l (insertList k v xs) = if k = l then some v else getList l xs := by
  induction xs with
  | nil => rfl
  | cons y ys ih =>
    simp only [insertList]
    split_ifs with hlt hkl heq hkl hkl
    · rw [getList, ih, if_pos hkl, if_neg (fun hy => hlt.ne (hy.trans hkl.symm))]
    · rw [getList, ih, if_neg hkl, getList]
    · rw [getList, if_pos hkl]
    · rw [getList, if_neg hkl, getList, if_neg (fun hy => hkl (heq.symm.trans hy))]
    · rw [getList, if_pos hkl]
    · rw [getList, if_neg hkl]

@[simp]
theorem get?_insert (k l : κ) (v : α) :
    (m.insert k v).get? l = if k = l then some v else m.get? l :=
  getList_insertList k l v m.toList

@[simp]
theorem get?_insert_self : (m.insert k v).get? k = some v := by
  rw [get?_insert, if_pos rfl]

theorem insertList_of_getList
    (h : xs.Pairwise fun x y => x.1 < y.1) (hget : getList k xs = some v) :
    insertList k v xs = xs := by
  induction xs with
  | nil => cases hget
  | cons y ys ih =>
    rcases pairwise_cons.mp h with ⟨hy, hys⟩
    rw [getList] at hget
    rw [insertList]
    split_ifs at hget with heq
    · rw [if_neg (by rw [heq]; exact lt_irrefl k), if_pos heq, ← Option.some.inj hget, ← heq]
    · have hmem : (k, v) ∈ ys := (mem_iff_getList k v ys hys).mpr hget
      rw [if_pos (hy _ hmem), ih hys hget]

theorem insert_eq_self (h : m.get? k = some v) :
    m.insert k v = m := by
  rcases m with ⟨xs, hxs⟩
  simp only [insert, mk.injEq]
  exact insertList_of_getList k v xs hxs h

theorem getList_filter (k l : κ) (xs : List (κ × α)) :
    getList l (xs.filter (·.1 ≠ k)) = if k = l then none else getList l xs := by
  induction xs with
  | nil => simp [getList]
  | cons y ys ih =>
    by_cases hy : y.1 = k
    · rw [filter_cons_of_neg (by simpa using hy), ih, getList]
      by_cases hkl : k = l
      · rw [if_pos hkl, if_pos hkl]
      · rw [if_neg hkl, if_neg hkl, if_neg (fun hyl => hkl (hy.symm.trans hyl))]
    · rw [filter_cons_of_pos (by simpa using hy), getList, ih, getList]
      by_cases hkl : k = l
      · rw [if_pos hkl, if_neg (fun hyl => hy (hyl.trans hkl.symm)), if_pos hkl]
      · rw [if_neg hkl, if_neg hkl]

@[simp]
theorem get?_erase (k l : κ) : (m.erase k).get? l = if k = l then none else m.get? l :=
  getList_filter k l m.toList

theorem mem_dropWhile (p : κ → Bool) (xs : List (κ × α))
    (hp : ∀ k l, k < l → p l = true → p k = true) (h : xs.Pairwise fun x y => x.1 < y.1)
    (x : κ × α) : x ∈ xs.dropWhile (fun y => p y.1) ↔ x ∈ xs ∧ p x.1 = false := by
  induction xs with
  | nil => simp
  | cons y ys ih =>
    rcases pairwise_cons.mp h with ⟨hy, hys⟩
    by_cases hpy : p y.1 = true
    · rw [dropWhile_cons, if_pos hpy, ih hys, mem_cons]
      refine ⟨fun hx => ⟨Or.inr hx.1, hx.2⟩, ?_⟩
      rintro ⟨heq | hmem, hx⟩
      · rw [heq, hpy] at hx
        cases hx
      · exact ⟨hmem, hx⟩
    · rw [dropWhile_cons, if_neg hpy]
      have hfalse : p y.1 = false := Bool.eq_false_iff.mpr hpy
      refine ⟨fun hx => ⟨hx, ?_⟩, fun hx => hx.1⟩
      rcases mem_cons.mp hx with heq | hmem
      · rw [heq]
        exact hfalse
      · refine Bool.eq_false_iff.mpr (fun hpx => ?_)
        rw [hp y.1 x.1 (hy x hmem) hpx] at hfalse
        cases hfalse

theorem mem_lowerBound :
    x ∈ m.lowerBound k ↔ x ∈ m.toList ∧ k ≤ x.1 := by
  rw [lowerBound, mem_dropWhile (fun l => decide (l < k)) m.toList ?_ m.sorted x,
    decide_eq_false_iff_not, not_lt]
  intro a b hab hb
  exact decide_eq_true (lt_trans hab (of_decide_eq_true hb))

theorem mem_upperBound :
    x ∈ m.upperBound k ↔ x ∈ m.toList ∧ k < x.1 := by
  rw [upperBound, mem_dropWhile (fun l => decide (l ≤ k)) m.toList ?_ m.sorted x,
    decide_eq_false_iff_not, not_le]
  intro a b hab hb
  exact decide_eq_true (le_trans hab.le (of_decide_eq_true hb))

theorem upperBound_eq (xs ys : List (κ × α)) (x : κ × α)
    (h : m.toList = xs ++ x :: ys) : m.upperBound x.1 = ys := by
  have hsort := m.sorted
  rw [h, pairwise_append, pairwise_cons] at hsort
  rcases hsort with ⟨-, ⟨hys, -⟩, hxs⟩
  have hdrop : ys.dropWhile (fun y => decide (y.1 ≤ x.1)) = ys := by
    cases ys with
    | nil => rfl
    | cons y ys =>
      have hy : ¬ y.1 ≤ x.1 := not_le.mpr (hys y mem_cons_self)
      rw [dropWhile_cons, if_neg (by simpa using hy)]
  rw [upperBound, h, dropWhile_append_of_pos ?_, dropWhile_cons, if_pos (by simp), hdrop]
  intro y hy
  exact decide_eq_true (hxs y hy x mem_cons_self).le

def floor? (m : SortedMap κ α) (k : κ) : Option (κ × α) :=
  (m.toList.takeWhile (·.1 ≤ k)).getLast?

theorem mem_takeWhile (h : xs.Pairwise fun x y => x.1 < y.1)
    (x : κ × α) : x ∈ xs.takeWhile (·.1 ≤ k) ↔ x ∈ xs ∧ x.1 ≤ k := by
  induction xs with
  | nil => simp
  | cons y ys ih =>
    rcases pairwise_cons.mp h with ⟨hy, hys⟩
    by_cases hyk : y.1 ≤ k
    · rw [takeWhile_cons, if_pos (by simpa using hyk), mem_cons, ih hys, mem_cons]
      constructor
      · rintro (rfl | hx)
        · exact ⟨Or.inl rfl, hyk⟩
        · exact ⟨Or.inr hx.1, hx.2⟩
      · rintro ⟨rfl | hmem, hx⟩
        · exact Or.inl rfl
        · exact Or.inr ⟨hmem, hx⟩
    · rw [takeWhile_cons, if_neg (by simpa using hyk)]
      refine ⟨fun hx => absurd hx not_mem_nil, ?_⟩
      rintro ⟨hmem, hx⟩
      rcases mem_cons.mp hmem with rfl | hmem
      · exact absurd hx hyk
      · exact absurd ((hy x hmem).le.trans hx) hyk

theorem floor?_eq_none (h : m.floor? k = none) (x : κ × α) (hx : x ∈ m.toList) : k < x.1 := by
  rw [floor?, getLast?_eq_none_iff] at h
  by_contra hle
  have hmem := (mem_takeWhile k m.toList m.sorted x).mpr ⟨hx, not_lt.mp hle⟩
  rw [h] at hmem
  exact not_mem_nil hmem

theorem floor?_eq_some (h : m.floor? k = some x) :
    x ∈ m.toList ∧ x.1 ≤ k ∧ ∀ y ∈ m.toList, y.1 ≤ k → y.1 ≤ x.1 := by
  rw [floor?, getLast?_eq_some_iff] at h
  rcases h with ⟨ys, hys⟩
  have hmem : x ∈ m.toList.takeWhile (·.1 ≤ k) := by
    rw [hys]
    exact mem_append_right ys (mem_singleton.mpr rfl)
  rcases (mem_takeWhile k m.toList m.sorted x).mp hmem with ⟨hx, hle⟩
  refine ⟨hx, hle, fun y hy hyk => ?_⟩
  -- What is taken is sorted too, and `x` is its last node.
  have hsort : (ys ++ [x]).Pairwise fun a b => a.1 < b.1 := by
    rw [← hys]
    exact m.sorted.sublist (takeWhile_sublist _)
  have hy := (mem_takeWhile k m.toList m.sorted y).mpr ⟨hy, hyk⟩
  rw [hys, mem_append, mem_singleton] at hy
  rcases hy with hy | rfl
  · exact ((pairwise_append.mp hsort).2.2 y hy x (mem_singleton.mpr rfl)).le
  · exact le_rfl

def mapVals {β : Type} (m : SortedMap κ α) (f : α → β) : SortedMap κ β :=
  ⟨m.toList.map fun x => (x.1, f x.2), pairwise_map.mpr m.sorted⟩

theorem getList_mapVals {β : Type} (f : α → β) (k : κ) (xs : List (κ × α)) :
    getList k (xs.map fun x => (x.1, f x.2)) = (getList k xs).map f := by
  induction xs with
  | nil => rfl
  | cons x xs ih =>
    rw [map_cons, getList, getList, ih]
    by_cases hx : x.1 = k
    · rw [if_pos hx, if_pos hx, map_some]
    · rw [if_neg hx, if_neg hx]

@[simp]
theorem get?_mapVals {β : Type} (f : α → β) (k : κ) : (m.mapVals f).get? k = (m.get? k).map f :=
  getList_mapVals f k m.toList

/-- Change the values of the first nodes, up to one that fails a test. -/
def updateRun (p : α → Bool) (f : α → α) : List (κ × α) → List (κ × α)
  | [] => []
  | x :: xs => if p x.2 then (x.1, f x.2) :: updateRun p f xs else x :: xs

def updateFrom (k : κ) (p : α → Bool) (f : α → α) : List (κ × α) → List (κ × α)
  | [] => []
  | x :: xs => if x.1 < k then x :: updateFrom k p f xs else updateRun p f (x :: xs)

omit [LinearOrder κ] in
theorem updateRun_keys (xs : List (κ × α)) : (updateRun p f xs).map (·.1) = xs.map (·.1) := by
  induction xs with
  | nil => rfl
  | cons x xs ih =>
    rw [updateRun]
    split_ifs
    · rw [map_cons, map_cons, ih]
    · rfl

theorem updateFrom_keys (xs : List (κ × α)) : (updateFrom k p f xs).map (·.1) = xs.map (·.1) := by
  induction xs with
  | nil => rfl
  | cons x xs ih =>
    rw [updateFrom]
    split_ifs
    · rw [map_cons, map_cons, ih]
    · exact updateRun_keys p f (x :: xs)

def updateWhile (m : SortedMap κ α) (k : κ) (p : α → Bool) (f : α → α) : SortedMap κ α :=
  ⟨updateFrom k p f m.toList, by
    have hsorted := pairwise_map.mpr m.sorted
    rw [← updateFrom_keys k p f] at hsorted
    exact pairwise_map.mp hsorted⟩

theorem getList_updateRun (l : κ) (xs : List (κ × α))
    (h : xs.Pairwise fun x y => x.1 < y.1) : getList l (updateRun p f xs) =
      if ∀ x ∈ xs, x.1 ≤ l → p x.2 then (getList l xs).map f else getList l xs := by
  induction xs with
  | nil => rfl
  | cons x xs ih =>
    rcases pairwise_cons.mp h with ⟨hx, hxs⟩
    -- Keys after `x` are larger than that of `x`.
    have haft : ∀ k, k ≤ x.1 → ∀ y ∈ xs, ¬ y.1 ≤ k := fun k hk y hy hle =>
      not_lt.mpr (le_trans hle hk) (hx y hy)
    rw [updateRun, getList]
    by_cases hp : p x.2 = true
    · rw [if_pos hp, getList, ih hxs]
      by_cases heq : x.1 = l
      · have hall : ∀ y ∈ x :: xs, y.1 ≤ l → p y.2 = true := by
          intro y hy hle
          rcases mem_cons.mp hy with rfl | hmem
          · exact hp
          · exact absurd hle (haft l heq.ge y hmem)
        rw [if_pos heq, if_pos heq, if_pos hall, map_some]
      · have hiff : (∀ y ∈ x :: xs, y.1 ≤ l → p y.2 = true) ↔ ∀ y ∈ xs, y.1 ≤ l → p y.2 = true := by
          rw [forall_mem_cons]
          exact ⟨fun hall => hall.2, fun hall => ⟨fun _ => hp, hall⟩⟩
        rw [if_neg heq, if_neg heq, if_congr hiff rfl rfl]
    · rw [if_neg hp, getList]
      by_cases hle : x.1 ≤ l
      · have hnot : ¬ ∀ y ∈ x :: xs, y.1 ≤ l → p y.2 = true := fun hall =>
          hp (hall x mem_cons_self hle)
        rw [if_neg hnot]
      · have hnone : getList l xs = none :=
          getList_eq_none l xs (fun y hy heq => hle ((hx y hy).le.trans heq.le))
        rw [if_neg (fun heq => hle (le_of_eq heq)), hnone, map_none, ite_self]

theorem get?_updateWhile (k l : κ) (p : α → Bool) (f : α → α) : (m.updateWhile k p f).get? l =
      if k ≤ l ∧ ∀ x ∈ m.toList, k ≤ x.1 → x.1 ≤ l → p x.2 then (m.get? l).map f
      else m.get? l := by
  rcases m with ⟨xs, hxs⟩
  show getList l (updateFrom k p f xs) = if k ≤ l ∧ ∀ x ∈ xs, k ≤ x.1 → x.1 ≤ l → p x.2 then
    (getList l xs).map f else getList l xs
  induction xs with
  | nil => simp [updateFrom, getList]
  | cons x xs ih =>
    rcases pairwise_cons.mp hxs with ⟨hx, htail⟩
    rw [updateFrom]
    by_cases hlt : x.1 < k
    · rw [if_pos hlt, getList, getList, ih htail]
      by_cases heq : x.1 = l
      · rw [if_pos heq, if_pos heq, if_neg (fun hall => not_lt.mpr hall.1 (heq ▸ hlt))]
      · have hiff : (k ≤ l ∧ ∀ y ∈ x :: xs, k ≤ y.1 → y.1 ≤ l → p y.2 = true) ↔
            k ≤ l ∧ ∀ y ∈ xs, k ≤ y.1 → y.1 ≤ l → p y.2 = true := by
          rw [forall_mem_cons]
          exact ⟨fun hall => ⟨hall.1, hall.2.2⟩,
            fun hall => ⟨hall.1, fun hle => absurd hlt (not_lt.mpr hle), hall.2⟩⟩
        rw [if_neg heq, if_neg heq, if_congr hiff rfl rfl]
    · -- All keys are at least `k` from here on.
      have hge : ∀ y ∈ x :: xs, k ≤ y.1 := by
        intro y hy
        rcases mem_cons.mp hy with rfl | hmem
        · exact not_lt.mp hlt
        · exact le_trans (not_lt.mp hlt) (hx y hmem).le
      rw [if_neg hlt, getList_updateRun p f l (x :: xs) hxs]
      by_cases hle : k ≤ l
      · refine if_congr ⟨fun hall => ⟨hle, fun y hy _ => hall y hy⟩,
          fun hall y hy => hall.2 y hy (hge y hy)⟩ rfl rfl
      · have hnone : getList l (x :: xs) = none :=
          getList_eq_none l _ (fun y hy heq => hle (heq ▸ hge y hy))
        rw [hnone, map_none, ite_self, ite_self]

end SortedMap

end Berberis.Lib
