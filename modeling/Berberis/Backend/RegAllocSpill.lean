import Berberis.Backend.RegAllocChoice

/-!
# Spilling a Register

A spilled lifetime is cut down, leaves the list of its register, and its tiny
lifetimes become new nodes of the list. `inv_cut` says that this keeps the
invariant as long as the list stays sorted, wherever the new nodes are put;
the lemmas on merging say where `MergeVRegLifetimeList` puts them.
-/

namespace Berberis.RegAlloc

open List

/-! ### Merging -/

section
variable (key : Nat → Int)

/-- Does a key belong before the node at the position of a merge. At the end
    of the list every key does. -/
def beforeNext : Option Int → Int → Bool
  | none, _ => true
  | some next, k => k < next

section

variable (k : Int) (src : List Nat) (h : src.Pairwise fun m n => key m ≤ key n)
include h

theorem dropWhile_ge :
    ∀ n ∈ src.dropWhile (key · < k), k ≤ key n := by
  induction src with
  | nil => exact fun n hn => absurd hn not_mem_nil
  | cons m src ih =>
    rcases pairwise_cons.mp h with ⟨hhead, htail⟩
    intro n hn
    by_cases hm : key m < k
    · rw [dropWhile_cons, if_pos (by simpa using hm)] at hn
      exact ih htail n hn
    · rw [dropWhile_cons, if_neg (by simpa using hm)] at hn
      have hk := Int.not_lt.mp hm
      rcases mem_cons.mp hn with rfl | hmem
      · exact hk
      · exact Int.le_trans hk (hhead n hmem)

theorem takeWhile_eq_filter :
    src.takeWhile (key · < k) = src.filter (key · < k) := by
  induction src with
  | nil => rfl
  | cons m src ih =>
    rcases pairwise_cons.mp h with ⟨hhead, htail⟩
    by_cases hm : key m < k
    · rw [takeWhile_cons_of_pos (by simpa using hm),
        filter_cons_of_pos (by simpa using hm), ih htail]
    · rw [takeWhile_cons_of_neg (by simpa using hm)]
      -- The first key is too large, so all are.
      refine (filter_eq_nil_iff.mpr fun n hn => ?_).symm
      have hk := Int.not_lt.mp hm
      rcases mem_cons.mp hn with rfl | hmem
      · simpa using hk
      · simpa using Int.le_trans hk (hhead n hmem)

end

theorem mergeAfter_perm (src dst : List Nat) : (mergeAfter key src dst).Perm (dst ++ src) := by
  induction dst generalizing src with
  | nil =>
    exact List.Perm.refl src
  | cons d dst ih =>
    refine perm_middle.trans (List.Perm.cons d ?_)
    refine ((ih _).append_left _).trans ?_
    rw [← append_assoc]
    refine (perm_append_comm.append_right _).trans ?_
    rw [append_assoc, takeWhile_append_dropWhile]
    exact List.Perm.refl _

theorem mergeVRegLifetimeList_perm (src front rest : List Nat) :
    ((mergeVRegLifetimeList key src (front, rest)).1 ++
      (mergeVRegLifetimeList key src (front, rest)).2).Perm (front ++ rest ++ src) := by
  cases rest with
  | nil =>
    rw [mergeVRegLifetimeList, append_nil, append_nil]
  | cons d dst =>
    have hmerge := mergeAfter_perm key src (d :: dst)
    rw [mergeVRegLifetimeList, append_assoc, append_assoc]
    exact hmerge.append_left front

theorem mergeAfter_sorted (src dst : List Nat) (hsrc : src.Pairwise fun m n => key m ≤ key n)
    (hdst : dst.Pairwise fun m n => key m ≤ key n) :
    (mergeAfter key src dst).Pairwise fun m n => key m ≤ key n := by
  induction dst generalizing src with
  | nil => exact hsrc
  | cons d dst ih =>
    rcases pairwise_cons.mp hdst with ⟨hhead, htail⟩
    have hdrop := hsrc.sublist (dropWhile_sublist (key · < key d))
    -- From `d` on, every key is at least that of `d`.
    have hge : ∀ n ∈ mergeAfter key (src.dropWhile (key · < key d)) dst, key d ≤ key n := by
      intro n hn
      rcases mem_append.mp ((mergeAfter_perm key _ dst).mem_iff.mp hn) with hn | hn
      · exact hhead n hn
      · exact dropWhile_ge key (key d) src hsrc n hn
    refine pairwise_append.mpr ⟨hsrc.sublist (takeWhile_sublist _),
      pairwise_cons.mpr ⟨hge, ih _ hdrop htail⟩, fun m hm n hn => ?_⟩
    have hlt : key m < key d := by simpa using mem_takeWhile_imp hm
    rcases mem_cons.mp hn with rfl | hmem
    · exact Int.le_of_lt hlt
    · exact Int.le_trans (Int.le_of_lt hlt) (hge n hmem)

section

variable (src front rest : List Nat)

theorem mergeVRegLifetimeList_front (hsrc : src.Pairwise fun m n => key m ≤ key n) :
    (mergeVRegLifetimeList key src (front, rest)).1 =
      front ++ src.filter (fun n => beforeNext (rest.head?.map key) (key n)) := by
  cases rest with
  | nil =>
    simp [mergeVRegLifetimeList, beforeNext]
  | cons d dst =>
    simp only [mergeVRegLifetimeList, head?_cons, Option.map_some, beforeNext]
    rw [takeWhile_eq_filter key (key d) src hsrc]

theorem mergeVRegLifetimeList_head :
    (mergeVRegLifetimeList key src (front, rest)).2.head? = rest.head? := by
  cases rest with
  | nil => rfl
  | cons d dst => rfl

theorem mergeVRegLifetimeList_sorted (hsrc : src.Pairwise fun m n => key m ≤ key n)
    (hlist : (front ++ rest).Pairwise fun m n => key m ≤ key n)
    (hfront : (mergeVRegLifetimeList key src (front, rest)).1.Pairwise fun m n => key m ≤ key n) :
    ((mergeVRegLifetimeList key src (front, rest)).1 ++
      (mergeVRegLifetimeList key src (front, rest)).2).Pairwise fun m n => key m ≤ key n := by
  rcases pairwise_append.mp hlist with ⟨_, hrest, hcross⟩
  refine pairwise_append.mpr ⟨hfront, ?_, fun m hm n hn => ?_⟩
  · cases rest with
    | nil => exact List.Pairwise.nil
    | cons d dst =>
      have hmerge := mergeAfter_sorted key src (d :: dst) hsrc hrest
      exact (pairwise_append.mp hmerge).2.1
  · cases rest with
    | nil => exact absurd hn not_mem_nil
    | cons d dst =>
      have hmerge := mergeAfter_sorted key src (d :: dst) hsrc hrest
      have hge := (pairwise_cons.mp (pairwise_append.mp hmerge).2.1).1
      -- What is in front of `d` has no larger key.
      have hle : key m ≤ key d := by
        rcases mem_append.mp hm with hm | hm
        · exact hcross m hm d mem_cons_self
        · exact Int.le_of_lt (by simpa using mem_takeWhile_imp hm)
      rcases mem_cons.mp hn with rfl | hmem
      · exact hle
      · exact Int.le_trans hle (hge n hmem)

end

end

/-! ### New nodes -/

section
variable (st : AllocState) (tiny : List VRegLifetime)

theorem addNodes_heap_of_lt (n : Nat) (h : n < st.numNodes) :
    (st.addNodes tiny).1.heap n = st.heap n :=
  if_neg (Nat.not_le.mpr h)

theorem addNodes_heap_new (i : Nat) (h : i < tiny.length) :
    (st.addNodes tiny).1.heap (st.numNodes + i) = tiny.get ⟨i, h⟩ := by
  show (if st.numNodes ≤ st.numNodes + i then
    (tiny[st.numNodes + i - st.numNodes]?).getD (st.heap (st.numNodes + i)) else _) = _
  rw [if_pos (Nat.le_add_right _ _), Nat.add_sub_cancel_left, getElem?_eq_getElem h]
  rfl

theorem mem_addNodes (n : Nat) :
    n ∈ (st.addNodes tiny).2 ↔ st.numNodes ≤ n ∧ n < st.numNodes + tiny.length := by
  show n ∈ List.range' st.numNodes tiny.length ↔ _
  rw [mem_range'_1]

theorem addNodes_heap_mem (n : Nat) (h : n ∈ (st.addNodes tiny).2) :
    (st.addNodes tiny).1.heap n ∈ tiny := by
  rcases (mem_addNodes st tiny n).mp h with ⟨hle, hlt⟩
  have hn : n = st.numNodes + (n - st.numNodes) := by omega
  rw [hn, addNodes_heap_new st tiny (n - st.numNodes) (by omega)]
  exact get_mem tiny _

theorem addNodes_map {α : Type} (f : VRegLifetime → α) :
    ((st.addNodes tiny).2.map fun n => f ((st.addNodes tiny).1.heap n)) = tiny.map f := by
  refine ext_getElem ?_ (fun i h1 h2 => ?_)
  · show ((List.range' st.numNodes tiny.length).map _).length = _
    rw [length_map, length_range', length_map]
  · rw [length_map] at h2
    have hlt : i < (List.range' st.numNodes tiny.length).length := by
      rw [length_range']
      exact h2
    rw [getElem_map, getElem_map]
    show f ((st.addNodes tiny).1.heap (List.range' st.numNodes tiny.length)[i]) = _
    rw [getElem_range', Nat.one_mul, addNodes_heap_new st tiny i h2]
    rfl

end

/-! ### One spilled lifetime -/

/-- What is left of a spilled lifetime occupies less than before, and nothing
    after the position it was split at. -/
structure CutAt (b : Int) (l l' : VRegLifetime) : Prop where
  hardReg : l'.hardReg = l.hardReg
  ended : ∀ i ∈ l'.occupied, i.2 ≤ b
  within : ∀ i ∈ l'.occupied, ∃ j ∈ l.occupied, Within i j

theorem CutAt.apart {b : Int} {l l' m : VRegLifetime} (h : CutAt b l l') (ha : Apart l m) :
    Apart l' m := by
  intro i hi j hj
  rcases h.within i hi with ⟨k, hk, hik⟩
  exact not_overlap_of_within i k j hik (ha k hk j hj)

/-- The state as the invariant sees it while a register is being spilled: the spilled lifetimes have
    left the list of the register, and the new nodes are in the list. -/
def AllocState.spilling (st : AllocState) (reg : Nat) (active pending : List Nat) : AllocState :=
  { st.setAllocation reg { st.allocations reg with lifetimes := active } with pending := pending }

def AllocState.cut (st : AllocState) (y : Nat) (l : VRegLifetime) (tiny : List VRegLifetime) :
    AllocState × List Nat :=
  AllocState.addNodes { st with heap := Function.update st.heap y l } tiny

section
variable {ordered : Prop} {st : AllocState} {b : Int} {reg y : Nat} {l : VRegLifetime}
  {tiny : List VRegLifetime}
  {active pending pending' : List Nat}

theorem cut_heap_self (hy : y < st.numNodes) : (st.cut y l tiny).1.heap y = l :=
  (addNodes_heap_of_lt { st with heap := Function.update st.heap y l } tiny y hy).trans
    (Function.update_self _ _ _)

theorem cut_heap_of_ne (n : Nat) (hn : n < st.numNodes) (hne : n ≠ y) :
    (st.cut y l tiny).1.heap n = st.heap n :=
  (addNodes_heap_of_lt { st with heap := Function.update st.heap y l } tiny n hn).trans
    (Function.update_of_ne hne _ _)

theorem spilling_lifetimes_self (st : AllocState) (reg : Nat) (active pending : List Nat) :
    ((st.spilling reg active pending).allocations reg).lifetimes = active :=
  congrArg HardRegAllocation.lifetimes (AllocState.setAllocation_self st reg _)

theorem spilling_lifetimes_of_ne (st : AllocState) (reg r : Nat) (active pending : List Nat)
    (h : r ≠ reg) : ((st.spilling reg active pending).allocations r).lifetimes =
      (st.allocations r).lifetimes :=
  congrArg HardRegAllocation.lifetimes (AllocState.setAllocation_of_ne st reg r _ h)

/-- One spilled lifetime is cut down, leaves the list of its register, and its
    tiny lifetimes go anywhere in the list that keeps the order. -/
theorem inv_cut (hi : Inv ordered (st.spilling reg active pending) b) (hy : y ∈ active)
    (hl : CutAt b (st.heap y) l) (htiny : ∀ t ∈ tiny, t.Ok ∧ b ≤ t.begin_)
    (hperm : pending'.Perm (pending ++ (st.cut y l tiny).2))
    (hsort : ordered →
      (pending'.map fun n => ((st.cut y l tiny).1.heap n).begin_).Pairwise (· ≤ ·)) :
    Inv ordered ((st.cut y l tiny).1.spilling reg (active.filter (· ≠ y)) pending') b := by
  have hbound : ∀ n ∈ st.visited ++ pending, n < st.numNodes := hi.bounded
  have hnod : (st.visited ++ pending).Nodup := hi.nodup
  rcases hi.active reg y ((spilling_lifetimes_self st reg active pending).symm ▸ hy) with
    ⟨hyv, hyreg, -⟩
  have hylt := hbound y (mem_append_left _ hyv)
  have hself : (st.cut y l tiny).1.heap y = l := cut_heap_self hylt
  -- Visited nodes but `y` keep their lifetime, and so do those in the list.
  have hvis : ∀ z ∈ st.visited, z ≠ y → (st.cut y l tiny).1.heap z = st.heap z :=
    fun z hz => cut_heap_of_ne z (hbound z (mem_append_left _ hz))
  have hpend : ∀ z ∈ pending, (st.cut y l tiny).1.heap z = st.heap z := by
    intro z hz
    refine cut_heap_of_ne z (hbound z (mem_append_right _ hz)) ?_
    rintro rfl
    exact (nodup_append.mp hnod).2.2 z hyv z hz rfl
  -- Of the lists of the registers only that of `reg` changes, and only by `y`.
  have hmem : ∀ r z, z ∈ (((st.cut y l tiny).1.spilling reg (active.filter (· ≠ y))
      pending').allocations r).lifetimes ↔
        z ∈ ((st.spilling reg active pending).allocations r).lifetimes ∧ z ≠ y := by
    intro r z
    by_cases hr : r = reg
    · rw [hr, spilling_lifetimes_self, spilling_lifetimes_self, mem_filter]
      simp
    · rw [spilling_lifetimes_of_ne _ _ _ _ _ hr, spilling_lifetimes_of_ne _ _ _ _ _ hr]
      refine ⟨fun hz => ⟨hz, ?_⟩, fun hz => hz.1⟩
      rintro rfl
      have hreg := (hi.active r z ((spilling_lifetimes_of_ne st reg r active pending hr).symm ▸
        hz)).2.1
      exact hr (hreg.symm.trans hyreg)
  refine ⟨?_, fun z hz => ?_, fun r => ?_, fun r z hz => ?_, fun z hz => ?_, hsort,
    fun ho z hz w hw hne hreg => ?_, fun ho z hz hnot i hin => ?_⟩
  · have hnew : (st.visited ++ (pending ++ (st.cut y l tiny).2)).Nodup := by
      rw [← append_assoc]
      refine nodup_append.mpr ⟨hnod, nodup_range', fun n hn m hm heq => ?_⟩
      have h1 := hbound n hn
      have h2 := ((mem_addNodes _ tiny m).mp hm).1
      rw [heq] at h1
      exact absurd h1 (Nat.not_lt.mpr h2)
    exact ((hperm.append_left st.visited).nodup_iff).mpr hnew
  · have hz : z ∈ st.visited ++ pending' := hz
    show z < st.numNodes + tiny.length
    rw [(hperm.append_left st.visited).mem_iff, ← append_assoc] at hz
    rcases mem_append.mp hz with hz | hz
    · have := hbound z hz
      omega
    · exact ((mem_addNodes _ tiny z).mp hz).2
  · by_cases hr : r = reg
    · have hold := hi.active_nodup reg
      rw [spilling_lifetimes_self] at hold
      rw [hr, spilling_lifetimes_self]
      exact hold.filter _
    · have hold := hi.active_nodup r
      rw [spilling_lifetimes_of_ne _ _ _ _ _ hr] at hold ⊢
      exact hold
  · rcases (hmem r z).mp hz with ⟨hz, hne⟩
    rcases hi.active r z hz with ⟨hzv, hzreg, hzok⟩
    have hheap := hvis z hzv hne
    exact ⟨hzv, hheap.symm ▸ hzreg, hheap.symm ▸ hzok⟩
  · have hz := hperm.mem_iff.mp hz
    rcases mem_append.mp hz with hz | hz
    · have hheap := hpend z hz
      exact hheap.symm ▸ hi.pending_ok z hz
    · exact (htiny _ (addNodes_heap_mem
        { st with heap := Function.update st.heap y l } tiny z hz)).imp
        id fun hle _ => hle
  · have hz : z ∈ st.visited := hz
    have hreg : ((st.cut y l tiny).1.heap z).hardReg = ((st.cut y l tiny).1.heap w).hardReg := hreg
    show Apart ((st.cut y l tiny).1.heap z) ((st.cut y l tiny).1.heap w)
    by_cases hzy : z = y
    · have hwy : w ≠ y := fun h => hne (hzy.trans h.symm)
      rw [hzy, hself, hvis w hw hwy] at hreg ⊢
      refine hl.apart (hi.apart ho y hyv w hw hwy.symm ?_)
      exact hl.hardReg.symm.trans hreg
    · by_cases hwy : w = y
      · rw [hwy, hself, hvis z hz hzy] at hreg ⊢
        refine apart_symm _ _ (hl.apart (hi.apart ho y hyv z hz (Ne.symm hzy) ?_))
        exact (hreg.trans hl.hardReg).symm
      · rw [hvis z hz hzy, hvis w hw hwy] at hreg ⊢
        exact hi.apart ho z hz w hw hne hreg
  · have hz : z ∈ st.visited := hz
    have hin : i ∈ ((st.cut y l tiny).1.heap z).occupied := hin
    by_cases hzy : z = y
    · rw [hzy, hself] at hin
      exact hl.ended i hin
    · have hheap := hvis z hz hzy
      rw [hheap] at hin
      refine hi.expired ho z hz (fun hmem' => hnot ((hmem _ z).mpr ⟨?_, hzy⟩)) i hin
      show z ∈ ((st.spilling reg active pending).allocations
        ((st.cut y l tiny).1.heap z).hardReg).lifetimes
      rw [hheap]
      exact hmem'

end

end Berberis.RegAlloc
