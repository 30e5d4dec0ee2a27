import Berberis.Backend.RegAllocSpill

/-!
# The Allocation Is Interference Free

Spilling cuts lifetimes down and adds tiny ones to the part of the list not
yet visited, one spilled lifetime after another. The scan relies on that part
being sorted by begin. Each spilled lifetime has its uses in order, and what
it moves behind the next lifetime is merged in order. But every merge starts
at the next lifetime, so what a second spilled lifetime moves in front of it
goes behind all that the first one moved there. `SpillsInOrder` says that
this does no harm in a step; along a run of such steps the invariant holds,
and without it the allocation of `unorderedSpills` puts two lifetimes that
overlap on one register.

## Theorems

* `allocate_interference_free`: Runs in which spills come in order are
  interference free.
* `allocate_unorderedSpills`: A run in which they do not.
-/

namespace Berberis.RegAlloc

open List AllocState

/-! ### What a spill moves -/

/-- The uses that leave a lifetime when it is spilled at a position. -/
def movedUses (l : VRegLifetime) (b : Int) : List VRegUse :=
  (splitRangesAt l.rangeList (l.findSplitPos b).2).2

theorem ofUse_ok (u : VRegUse) (slot : Option Nat) (h : u.begin_ ≤ u.end_) :
    ({ VRegLifetime.ofUse u with spillSlot := slot } : VRegLifetime).Ok := by
  refine ⟨cons_ne_nil _ _, ⟨fun r hr => ?_, pairwise_singleton _ _⟩⟩
  rw [mem_singleton.mp hr]
  refine ⟨h, fun v hv => ?_, pairwise_singleton _ _⟩
  rw [mem_singleton.mp hv]
  exact ⟨Int.le_refl _, h, Int.le_refl _⟩

section
variable {l : VRegLifetime} {b : Int}

section

variable (h : l.Ok) (hkind : (l.findSplitPos b).1 ≠ .impossible)
include h hkind

theorem splitsAt_findSplitPos :
    SplitsAt b l.rangeList (splitRangesAt l.rangeList (l.findSplitPos b).2).1 (movedUses l b) :=
  splitsAt_findRange b l.rangeList h.ranges hkind

theorem cutAt_split (slot : Nat) :
    CutAt b l { l with
      spillSlot := some slot
      rangeList := (splitRangesAt l.rangeList (l.findSplitPos b).2).1 } := by
  have hspl := splitsAt_findSplitPos h hkind
  refine ⟨rfl, fun i hi => ?_, fun i hi => ?_⟩
  · rcases mem_map.mp hi with ⟨u, hu, rfl⟩
    exact hspl.kept_end u hu
  · rcases mem_map.mp hi with ⟨u, hu, rfl⟩
    have hold : u ∈ l.rangeList.flatMap (·.useList) := by
      rw [hspl.uses]
      exact mem_append_left _ hu
    unfold VRegLifetime.occupied
    cases l.spillSlot with
    | none =>
      rcases use_within l.rangeList h.ranges u hold with ⟨r, hr, hur⟩
      exact ⟨(r.begin_, r.end_), mem_map_of_mem hr, hur⟩
    | some _ =>
      exact ⟨(u.begin_, u.end_), mem_map_of_mem hold, Int.le_refl _, Int.le_refl _⟩

theorem movedUses_ok (u : VRegUse) (hu : u ∈ movedUses l b) : u.begin_ ≤ u.end_ ∧ b ≤ u.begin_ := by
  have hspl := splitsAt_findSplitPos h hkind
  refine ⟨?_, hspl.moved_begin u hu⟩
  have hold : u ∈ l.rangeList.flatMap (·.useList) := by
    rw [hspl.uses]
    exact mem_append_right _ hu
  rcases mem_flatMap.mp hold with ⟨r, hr, hur⟩
  exact ((h.ranges.each r hr).inside u hur).2.1

theorem movedUses_sorted : ((movedUses l b).map (·.begin_)).Pairwise (· ≤ ·) := by
  have hsort := h.ranges.uses_sorted
  rw [(splitsAt_findSplitPos h hkind).uses] at hsort
  exact pairwise_map.mpr (pairwise_append.mp hsort).2.1

end

end

/-! ### The loop over the spills -/

/-- The begins of the uses that spilling some lifetimes moves, in the order in
    which they are merged. -/
def movedBegins (heap : Nat → VRegLifetime) (b : Int) (ys : List Nat) : List Int :=
  ys.flatMap fun y => (movedUses (heap y) b).map (·.begin_)

/-- A record that can be carried out: the lifetime is on the register, and is
    split where `FindSplitPos` said. -/
structure SpillOk (st : AllocState) (active : List Nat) (b : Int) (s : VRegLifetimeSpill) :
    Prop where
  mem : s.lifetime ∈ active
  pos : s.reallocPos = ((st.heap s.lifetime).findSplitPos b).2
  possible : ((st.heap s.lifetime).findSplitPos b).1 ≠ .impossible

def AllocState.spilled (st : AllocState) (slot : Nat) (s : VRegLifetimeSpill) : VRegLifetime :=
  { st.heap s.lifetime with
    spillSlot := some ((st.heap s.lifetime).spillSlot.getD slot)
    rangeList := (splitRangesAt (st.heap s.lifetime).rangeList s.reallocPos).1 }

def AllocState.tinies (st : AllocState) (slot : Nat) (s : VRegLifetimeSpill) :
    List VRegLifetime :=
  (splitRangesAt (st.heap s.lifetime).rangeList s.reallocPos).2.map fun u =>
    { VRegLifetime.ofUse u with
      spillSlot := some ((st.heap s.lifetime).spillSlot.getD slot) }

def AllocState.afterSpill (st : AllocState) (slot : Nat) (s : VRegLifetimeSpill) :
    AllocState × List Nat :=
  st.cut s.lifetime (st.spilled slot s) (st.tinies slot s)

def AllocState.key (st : AllocState) (n : Nat) : Int := (st.heap n).begin_

def AllocState.listAfter (st : AllocState) (slot : Nat) (s : VRegLifetimeSpill)
    (list : List Nat × List Nat) : List Nat × List Nat :=
  mergeVRegLifetimeList (st.afterSpill slot s).1.key (st.afterSpill slot s).2 list

theorem spillLoop_cons (slot : Nat) (s : VRegLifetimeSpill) (spills : List VRegLifetimeSpill)
    (st : AllocState) (list : List Nat × List Nat) : spillLoop slot (s :: spills) st list =
      spillLoop slot spills (st.afterSpill slot s).1 (st.listAfter slot s list) := by
  rw [spillLoop]
  rw [split_eq]
  rfl

/-- Records that can be carried out one after another: the lifetimes are
    different ones, and none of them is in the list. -/
structure Spillable (st : AllocState) (active : List Nat) (b : Int)
    (spills : List VRegLifetimeSpill) (list : List Nat) : Prop where
  nodup : (spills.map (·.lifetime)).Nodup
  each : ∀ s ∈ spills, SpillOk st active b s ∧ (st.heap s.lifetime).Ok
  old : ∀ n ∈ spills.map (·.lifetime) ++ list, n < st.numNodes
  apart : ∀ n ∈ list, n ∉ spills.map (·.lifetime)

section
variable {ordered : Prop} {st : AllocState} {reg x : Nat} {active front rest : List Nat} {b : Int}
  {s : VRegLifetimeSpill} {spills : List VRegLifetimeSpill}

theorem afterSpill_map {α : Type} (slot : Nat) (f : VRegLifetime → α) :
    ((st.afterSpill slot s).2.map fun n => f ((st.afterSpill slot s).1.heap n)) =
      (st.tinies slot s).map f :=
  addNodes_map { st with heap := Function.update st.heap s.lifetime (st.spilled slot s) } _ f

theorem tinies_ok (hok : (st.heap s.lifetime).Ok) (hs : SpillOk st active b s) (slot : Nat) :
    ∀ t ∈ st.tinies slot s, t.Ok ∧ b ≤ t.begin_ := by
  intro t ht
  unfold tinies at ht
  rw [hs.pos] at ht
  rcases mem_map.mp ht with ⟨u, hu, rfl⟩
  rcases movedUses_ok hok hs.possible u hu with ⟨hle, hb⟩
  exact ⟨ofUse_ok u _ hle, hb⟩

section
variable (h : Spillable st active b (s :: spills) (x :: (front ++ rest))) (slot : Nat)
include h

theorem Spillable.heap_list (n : Nat) (hn : n ∈ x :: (front ++ rest)) :
    (st.afterSpill slot s).1.heap n = st.heap n :=
  cut_heap_of_ne n (h.old n (mem_append_right _ hn))
    (fun heq => h.apart n hn (heq ▸ mem_cons_self))

/-- The later spills find their lifetimes as they were. -/
theorem Spillable.heap_later (t : VRegLifetimeSpill) (ht : t ∈ spills) :
    (st.afterSpill slot s).1.heap t.lifetime = st.heap t.lifetime :=
  cut_heap_of_ne _ (h.old _ (mem_append_left _ (mem_map_of_mem (mem_cons_of_mem s ht))))
    (fun heq => (nodup_cons.mp h.nodup).1 (mem_map.mpr ⟨t, ht, heq⟩))

theorem Spillable.tail : Spillable (st.afterSpill slot s).1 (active.filter (· ≠ s.lifetime)) b
    spills (x :: ((st.listAfter slot s (front, rest)).1 ++
      (st.listAfter slot s (front, rest)).2)) := by
  rcases nodup_cons.mp h.nodup with ⟨hnot, hnod⟩
  have hperm := mergeVRegLifetimeList_perm (st.afterSpill slot s).1.key (st.afterSpill slot s).2
    front rest
  have hmem : ∀ n ∈ x :: ((st.listAfter slot s (front, rest)).1 ++
      (st.listAfter slot s (front, rest)).2), n ∈ x :: (front ++ rest) ∨
        st.numNodes ≤ n ∧ n < st.numNodes + (st.tinies slot s).length := by
    intro n hn
    rcases mem_cons.mp hn with rfl | hn
    · exact Or.inl mem_cons_self
    · rcases mem_append.mp (hperm.mem_iff.mp hn) with hn | hn
      · exact Or.inl (mem_cons_of_mem x hn)
      · exact Or.inr ((mem_addNodes _ _ n).mp hn)
  refine ⟨hnod, fun t ht => ?_, fun n hn => ?_, fun n hn hin => ?_⟩
  · rcases h.each t (mem_cons_of_mem s ht) with ⟨⟨hact, hpos, hpossible⟩, hok⟩
    have hne : t.lifetime ≠ s.lifetime := fun heq => hnot (mem_map.mpr ⟨t, ht, heq⟩)
    rw [← h.heap_later slot t ht] at hpos hpossible hok
    exact ⟨⟨mem_filter.mpr ⟨hact, decide_eq_true hne⟩, hpos, hpossible⟩, hok⟩
  · show n < st.numNodes + (st.tinies slot s).length
    rcases mem_append.mp hn with hn | hn
    · have hlt := h.old n (mem_append_left _ (mem_cons_of_mem _ hn))
      omega
    · rcases hmem n hn with hn | hn
      · have hlt := h.old n (mem_append_right _ hn)
        omega
      · exact hn.2
  · have hlt := h.old n (mem_append_left _ (mem_cons_of_mem _ hin))
    rcases hmem n hn with hn | hn
    · exact h.apart n hn (mem_cons_of_mem _ hin)
    · omega

theorem Spillable.movedBegins : movedBegins st.heap b ((s :: spills).map (·.lifetime)) =
    (movedUses (st.heap s.lifetime) b).map (·.begin_) ++
      movedBegins (st.afterSpill slot s).1.heap b (spills.map (·.lifetime)) := by
  unfold RegAlloc.movedBegins
  rw [map_cons, flatMap_cons, flatMap_map, flatMap_map]
  refine congrArg (_ ++ ·) (flatMap_congr fun t ht => ?_)
  rw [h.heap_later slot t ht]

theorem Spillable.map_key (ns : List Nat) (hns : ns ⊆ x :: (front ++ rest)) :
    ns.map (st.afterSpill slot s).1.key = ns.map st.key :=
  map_congr_left fun n hn => congrArg VRegLifetime.begin_ (h.heap_list slot n (hns hn))

theorem Spillable.new_keys : (st.afterSpill slot s).2.map (st.afterSpill slot s).1.key =
    (movedUses (st.heap s.lifetime) b).map (·.begin_) := by
  refine (afterSpill_map slot VRegLifetime.begin_).trans ?_
  unfold tinies movedUses
  rw [(h.each s mem_cons_self).1.pos, map_map]
  rfl

theorem Spillable.new_sorted : (st.afterSpill slot s).2.Pairwise fun m n =>
    (st.afterSpill slot s).1.key m ≤ (st.afterSpill slot s).1.key n := by
  rcases h.each s mem_cons_self with ⟨hs, hok⟩
  refine pairwise_map.mp ?_
  rw [h.new_keys slot]
  exact movedUses_sorted hok hs.possible

/-- What one spill puts in front of the cut goes behind all that is there already. -/
theorem Spillable.keys : (st.listAfter slot s (front, rest)).1.map (st.afterSpill slot s).1.key =
        front.map st.key ++ ((movedUses (st.heap s.lifetime) b).map (·.begin_)).filter
          (beforeNext (rest.head?.map st.key)) ∧
      (st.listAfter slot s (front, rest)).2.head?.map (st.afterSpill slot s).1.key =
        rest.head?.map st.key := by
  have hhead : rest.head?.map (st.afterSpill slot s).1.key = rest.head?.map st.key := by
    rw [← head?_map, ← head?_map, h.map_key slot rest fun n hn =>
      mem_cons_of_mem x (mem_append_right _ hn)]
  unfold listAfter
  rw [mergeVRegLifetimeList_front _ _ front rest (h.new_sorted slot), mergeVRegLifetimeList_head,
    map_append, h.map_key slot front fun n hn => mem_cons_of_mem x (mem_append_left _ hn), hhead,
    ← h.new_keys slot, filter_map]
  exact ⟨rfl, rfl⟩

theorem Spillable.sorted (hlist : ((front ++ rest).map st.key).Pairwise (· ≤ ·))
    (hord : (front.map st.key ++ ((movedUses (st.heap s.lifetime) b).map (·.begin_)).filter
      (beforeNext (rest.head?.map st.key))).Pairwise (· ≤ ·)) :
    (((st.listAfter slot s (front, rest)).1 ++ (st.listAfter slot s (front, rest)).2).map
      (st.afterSpill slot s).1.key).Pairwise (· ≤ ·) := by
  rw [← h.map_key slot _ (subset_cons_self x _)] at hlist
  exact pairwise_map.mpr (mergeVRegLifetimeList_sorted _ (st.afterSpill slot s).2 front rest
    (h.new_sorted slot) (pairwise_map.mp hlist) (pairwise_map.mp ((h.keys slot).1 ▸ hord)))

theorem spill_step (hi : Inv ordered (st.spilling reg active (x :: (front ++ rest))) b)
    (hx : st.key x = b)
    (hord : ordered → (front.map st.key ++ ((movedUses (st.heap s.lifetime) b).map
      (·.begin_)).filter (beforeNext (rest.head?.map st.key))).Pairwise (· ≤ ·)) :
    Inv ordered ((st.afterSpill slot s).1.spilling reg (active.filter (· ≠ s.lifetime))
      (x :: ((st.listAfter slot s (front, rest)).1 ++
        (st.listAfter slot s (front, rest)).2))) b := by
  rcases h.each s mem_cons_self with ⟨hs, hok⟩
  let st' := (st.afterSpill slot s).1
  have hperm := mergeVRegLifetimeList_perm st'.key (st.afterSpill slot s).2 front rest
  refine inv_cut hi hs.mem ?_ (tinies_ok hok hs slot) (hperm.cons x) fun ho => ?_
  · have hcut := cutAt_split hok hs.possible ((st.heap s.lifetime).spillSlot.getD slot)
    unfold spilled
    rw [hs.pos]
    exact hcut
  · refine pairwise_cons.mpr ⟨fun k hk => ?_,
      h.sorted slot (pairwise_cons.mp (hi.sorted ho)).2 (hord ho)⟩
    rcases mem_map.mp hk with ⟨n, hn, rfl⟩
    show (st'.heap x).begin_ ≤ (st'.heap n).begin_
    rw [h.heap_list slot x mem_cons_self]
    refine hx.trans_le ?_
    rcases mem_append.mp (hperm.mem_iff.mp hn) with hn | hn
    · rw [h.heap_list slot n (mem_cons_of_mem x hn)]
      exact (hi.pending_ok n (mem_cons_of_mem x hn)).2 ho
    · exact (tinies_ok hok hs slot _ (addNodes_heap_mem _ _ n hn)).2

end

/-- The loop as a whole, in whatever order the uses come. -/
theorem spillLoop_list (slot : Nat) (spills : List VRegLifetimeSpill) (st : AllocState)
    (active front rest : List Nat) (h : Spillable st active b spills (x :: (front ++ rest))) :
    let result := spillLoop slot spills st (front, rest)
    result.2.1.map result.1.key = front.map st.key ++ (movedBegins st.heap b
        (spills.map (·.lifetime))).filter (beforeNext (rest.head?.map st.key)) ∧
      ((result.2.1 ++ result.2.2).map result.1.heap).Perm
        ((front ++ rest).map st.heap ++ spills.flatMap (st.tinies slot)) := by
  induction spills generalizing st active front rest with
  | nil =>
    exact ⟨(append_nil _).symm, by rw [flatMap_nil, append_nil]; exact List.Perm.refl _⟩
  | cons s spills ih =>
    rcases ih _ _ _ _ (h.tail slot) with ⟨hfront, hperm⟩
    rcases h.keys slot with ⟨hkeys, hhead⟩
    have hmerge := mergeVRegLifetimeList_perm (st.afterSpill slot s).1.key
      (st.afterSpill slot s).2 front rest
    have hlist : (front ++ rest).map (st.afterSpill slot s).1.heap = (front ++ rest).map st.heap :=
      map_congr_left fun n hn => h.heap_list slot n (mem_cons_of_mem x hn)
    have hlat : spills.flatMap ((st.afterSpill slot s).1.tinies slot) =
        spills.flatMap (st.tinies slot) := flatMap_congr fun t ht => by
      unfold tinies
      rw [h.heap_later slot t ht]
    rw [spillLoop_cons]
    refine ⟨?_, hperm.trans ?_⟩
    · rw [hfront, hkeys, hhead, h.movedBegins slot, filter_append, append_assoc]
    · rw [hlat, flatMap_cons, ← append_assoc]
      refine ((hmerge.map _).trans ?_).append_right _
      rw [map_append, hlist]
      exact ((afterSpill_map slot id).trans (map_id _) ▸ List.Perm.refl _)

/-- The loop keeps the list sorted if the uses come in the order of their begin. -/
theorem spillLoop_sorted (slot : Nat) (spills : List VRegLifetimeSpill) (st : AllocState)
    (active front rest : List Nat) (h : Spillable st active b spills (x :: (front ++ rest)))
    (hlist : ((front ++ rest).map st.key).Pairwise (· ≤ ·))
    (hord : (front.map st.key ++ (movedBegins st.heap b (spills.map (·.lifetime))).filter
      (beforeNext (rest.head?.map st.key))).Pairwise (· ≤ ·)) :
    let result := spillLoop slot spills st (front, rest)
    ((result.2.1 ++ result.2.2).map result.1.key).Pairwise (· ≤ ·) := by
  induction spills generalizing st active front rest with
  | nil => exact hlist
  | cons s spills ih =>
    rcases h.keys slot with ⟨hfront, hhead⟩
    rw [h.movedBegins slot, filter_append, ← append_assoc, ← hfront, ← hhead] at hord
    rw [spillLoop_cons]
    exact ih _ _ _ _ (h.tail slot)
      (h.sorted slot hlist (hfront ▸ (pairwise_append.mp hord).1)) hord

end

/-- What the loop over the spills leaves of the state. -/
structure Spilled (st st' : AllocState) (ys : List Nat) : Prop where
  allocations : st'.allocations = st.allocations
  visited : st'.visited = st.visited
  numNodes : st.numNodes ≤ st'.numNodes
  heap : ∀ n < st.numNodes, n ∉ ys → st'.heap n = st.heap n

/-- The whole loop. The order the moved uses need is that of all spills
    together, since each merge starts at the same node. -/
theorem spillLoop_spec {ordered : Prop} (slot reg x : Nat) (b : Int)
    (spills : List VRegLifetimeSpill)
    (st : AllocState) (active front rest : List Nat)
    (h : Spillable st active b spills (x :: (front ++ rest)))
    (hi : Inv ordered (st.spilling reg active (x :: (front ++ rest))) b) (hx : st.key x = b)
    (hord : ordered → (front.map st.key ++ (movedBegins st.heap b (spills.map
      (·.lifetime))).filter (beforeNext (rest.head?.map st.key))).Pairwise (· ≤ ·)) :
    let result := spillLoop slot spills st (front, rest)
    Inv ordered (result.1.spilling reg (active.filter (· ∉ spills.map (·.lifetime)))
        (x :: (result.2.1 ++ result.2.2))) b ∧
      Spilled st result.1 (spills.map (·.lifetime)) := by
  induction spills generalizing st active front rest with
  | nil =>
    have hall : active.filter (· ∉ ([] : List VRegLifetimeSpill).map (·.lifetime)) = active :=
      filter_eq_self.mpr fun y _ => by simp
    rw [hall]
    exact ⟨hi, rfl, rfl, Nat.le_refl _, fun _ _ _ => rfl⟩
  | cons s spills ih =>
    rcases h.keys slot with ⟨hfront, hhead⟩
    rw [h.movedBegins slot, filter_append, ← append_assoc, ← hfront, ← hhead] at hord
    have hinv := spill_step h slot hi hx fun ho => hfront ▸ (pairwise_append.mp (hord ho)).1
    have hx' : (st.afterSpill slot s).1.key x = b :=
      (congrArg VRegLifetime.begin_ (h.heap_list slot x mem_cons_self)).trans hx
    rw [spillLoop_cons]
    rcases ih _ _ _ _ (h.tail slot) hinv hx' hord with ⟨hinv', hspil⟩
    refine ⟨?_, hspil.allocations, hspil.visited, ?_, fun n hn hmem => ?_⟩
    · have hact : active.filter (· ∉ (s :: spills).map (·.lifetime)) =
          (active.filter (· ≠ s.lifetime)).filter (· ∉ spills.map (·.lifetime)) := by
        rw [filter_filter]
        simp only [map_cons, mem_cons, not_or, ne_eq, Bool.decide_and, Bool.and_comm]
      rw [hact]
      exact hinv'
    · exact Nat.le_trans (Nat.le_add_right _ _) hspil.numNodes
    · rw [hspil.heap n (Nat.lt_of_lt_of_le hn (Nat.le_add_right _ _))
        (fun h => hmem (mem_cons_of_mem _ h))]
      exact cut_heap_of_ne n hn (fun h => hmem (h ▸ mem_cons_self))

/-! ### One turn of the loop of `Allocate` -/

/-- In a step that spills, the uses that it moves in front of the next lifetime of the list come
    in the order of their begin. Each spilled lifetime has its moved uses in order, but the tiny
    lifetimes of a second one are put behind those of the first. -/
def SpillsInOrder (st : AllocState) : Prop :=
  ∀ x ∈ st.pending.head?, ∀ choice ∈ st.chooseReg x, ∀ reg ∈ choice.2,
    ((movedBegins st.heap (st.heap x).begin_
      ((st.allocations reg).lifetimes.filter (interferes st.heap x))).filter
        (beforeNext (st.pending.tail.head?.map st.key))).Pairwise (· ≤ ·)

instance (st : AllocState) : Decidable (SpillsInOrder st) :=
  inferInstanceAs (Decidable (∀ _ ∈ _, ∀ _ ∈ _, ∀ _ ∈ _, _))

section
variable {ordered : Prop} {st st' : AllocState} {x reg : Nat} {rest : List Nat}

theorem spilling_self (st : AllocState) (reg : Nat) :
    st.spilling reg (st.allocations reg).lifetimes st.pending = st := by
  show { st with allocations := Function.update st.allocations reg (st.allocations reg) } = st
  rw [Function.update_eq_self]

section

variable (h : Chosen ordered st st' x reg rest)
include h

theorem Chosen.key_eq : st'.key = st.key :=
  funext fun n => (h.shape n).begin_

theorem Chosen.moved_order (hpend : st.pending = x :: rest)
    (hchoose : st.chooseReg x = some (st', some reg)) (hord : SpillsInOrder st) :
    ((movedBegins st'.heap (st'.heap x).begin_
      ((st'.allocations reg).spills.map (·.lifetime))).filter
        (beforeNext (rest.head?.map st'.key))).Pairwise (· ≤ ·) := by
  have hspills : (st'.allocations reg).spills.map (·.lifetime) =
      (st.allocations reg).lifetimes.filter (interferes st.heap x) := by
    rw [h.recorded.spills, map_map, ← h.interfering]
    exact map_id _
  have hmov : movedBegins st'.heap (st'.heap x).begin_ = movedBegins st.heap
      (st.heap x).begin_ := by
    funext ys
    unfold movedBegins movedUses VRegLifetime.findSplitPos
    refine flatMap_congr fun y _ => ?_
    rw [(h.shape y).rangeList, (h.shape x).begin_]
  have hst := hord x (by rw [hpend]; rfl) _ hchoose reg rfl
  rw [hpend, tail_cons] at hst
  rw [hspills, hmov, h.key_eq]
  exact hst

theorem Chosen.spills_nodup : ((st'.allocations reg).spills.map (·.lifetime)).Nodup := by
  rw [h.recorded.spills, map_map, show VRegLifetimeSpill.lifetime ∘ spillOf st'.heap x = id
    from rfl, map_id]
  exact (h.ready.inv.active_nodup reg).filter _

theorem Chosen.spillOk : ∀ s ∈ (st'.allocations reg).spills,
      SpillOk st' (st'.allocations reg).lifetimes (st'.heap x).begin_ s := by
  intro s hs
  rw [h.recorded.spills] at hs
  rcases mem_map.mp hs with ⟨y, hy, rfl⟩
  rcases mem_filter.mp hy with ⟨hmem, hint⟩
  exact ⟨hmem, rfl, h.recorded.possible y hmem hint⟩

theorem Chosen.free (y : Nat) (hy : y ∈ (st'.allocations reg).lifetimes)
    (hnot : y ∉ (st'.allocations reg).spills.map (·.lifetime)) :
    (st'.heap y).testInterference (st'.heap x) = false := by
  refine Bool.eq_false_iff.mpr fun hint => hnot ?_
  rw [h.recorded.spills]
  exact mem_map_of_mem (mem_map_of_mem (mem_filter.mpr ⟨hy, hint⟩))

theorem Chosen.spillable : Spillable st' (st'.allocations reg).lifetimes (st'.heap x).begin_
    (st'.allocations reg).spills (x :: ([] ++ rest)) := by
  have hinv := h.ready.inv
  have hact : ∀ s ∈ (st'.allocations reg).spills, s.lifetime ∈ st'.visited ∧
      (st'.heap s.lifetime).Ok := fun s hs =>
    have hs := hinv.active reg s.lifetime (h.spillOk s hs).mem
    ⟨hs.1, hs.2.2⟩
  refine ⟨h.spills_nodup, fun s hs => ⟨h.spillOk s hs, (hact s hs).2⟩, fun n hn => ?_,
    fun n hn hin => ?_⟩
  · refine hinv.bounded n (mem_append.mpr ((mem_append.mp hn).imp (fun hn => ?_) fun hn => ?_))
    · rcases mem_map.mp hn with ⟨s, hs, rfl⟩
      exact (hact s hs).1
    · rw [h.ready.pending]
      exact hn
  · rcases mem_map.mp hin with ⟨s, hs, rfl⟩
    rw [nil_append, ← h.ready.pending] at hn
    exact (nodup_append.mp hinv.nodup).2.2 _ (hact s hs).1 _ hn rfl

theorem spillAndAssign_inv (st'' : AllocState)
    (hord : ordered → ((movedBegins st'.heap (st'.heap x).begin_
      ((st'.allocations reg).spills.map (·.lifetime))).filter
        (beforeNext (rest.head?.map st'.key))).Pairwise (· ≤ ·))
    (hspill : st'.spillAndAssignHardReg x reg rest = some st'') :
    Inv ordered (st''.advance x) (st.heap x).begin_ := by
  have hinv : Inv ordered (st'.spilling reg (st'.allocations reg).lifetimes (x :: ([] ++ rest)))
      (st'.heap x).begin_ := by
    rw [nil_append, ← h.ready.pending, spilling_self]
    exact h.ready.inv
  have hloop := spillLoop_spec st'.numSpillSlots reg x (st'.heap x).begin_
    (st'.allocations reg).spills st' _ [] rest h.spillable hinv rfl hord
  unfold spillAndAssignHardReg at hspill
  dsimp only at hspill hloop
  split_ifs at hspill with hcheck
  cases hspill
  generalize spillLoop st'.numSpillSlots (st'.allocations reg).spills st' ([], rest) =
    result at hloop ⊢
  rcases result with ⟨st1, front, rest'⟩
  rcases hloop with ⟨hinv1, hspil⟩
  have hx : st1.heap x = st'.heap x := hspil.heap x
    (h.spillable.old x (mem_append_right _ mem_cons_self)) (h.spillable.apart x mem_cons_self)
  rw [← (h.shape x).begin_, ← hx]
  rw [← hx] at hinv1
  -- The list the register had in between does not show in the end.
  have hass := inv_assign _ x reg (front ++ rest')
    { st'.allocations reg with
      lifetimes := (st'.allocations reg).lifetimes.filter
        (· ∉ (st'.allocations reg).spills.map (·.lifetime)) ++ [x] }
    hinv1 rfl (by rw [spilling_lifetimes_self]) ?_
  · exact inv_congr hass rfl rfl rfl rfl (Function.update_idem ..).symm
  · intro y hy
    rw [spilling_lifetimes_self] at hy
    rcases mem_filter.mp hy with ⟨hmem, hnot⟩
    have hnot := of_decide_eq_true hnot
    have hylt := h.ready.inv.bounded y (mem_append_left _ (h.ready.inv.active reg y hmem).1)
    show (st1.heap y).testInterference (st1.heap x) = false
    rw [hspil.heap y hylt hnot, hx]
    exact h.free y hmem hnot

end

end

theorem step_inv {ordered : Prop} (st st' : AllocState) (u : Unit)
    (hord : ordered → SpillsInOrder st) (hi : ∃ cur, Inv ordered st cur)
    (h : st.step u = some st') : ∃ cur, Inv ordered st' cur := by
  rcases hi with ⟨cur, hi⟩
  unfold step at h
  cases hpend : st.pending with
  | nil =>
    rw [hpend] at h
    cases h
  | cons x rest =>
    rw [hpend] at h
    rcases Option.map_eq_some_iff.mp h with ⟨st2, hall, rfl⟩
    have hready := ready_of_inv st cur x rest hi hpend
    refine ⟨(st.heap x).begin_, ?_⟩
    rcases Option.bind_eq_some_iff.mp hall with ⟨⟨st1, choice⟩, hchoose, hrest⟩
    cases choice with
    | none =>
      cases hrest
      exact chooseReg_none hready _ hchoose
    | some reg =>
      have hchos := chooseReg_some hready st1 reg hchoose
      exact spillAndAssign_inv hchos st2 (fun ho => hchos.moved_order hpend hchoose (hord ho)) hrest

/-! ### Whole runs -/

/-- What the allocator is given: well-formed lifetimes, sorted by begin. -/
structure LifetimesOk (ls : List VRegLifetime) : Prop where
  each : ∀ l ∈ ls, l.Ok
  sorted : (ls.map (·.begin_)).Pairwise (· ≤ ·)

theorem start_heap {ls : List VRegLifetime} {n : Nat} (h : n < ls.length) :
    (start ls).heap n = ls.get ⟨n, h⟩ := by
  show (ls[n]?).getD _ = _
  rw [getElem?_eq_getElem h]
  rfl

instance (ls : List VRegLifetime) : Decidable (LifetimesOk ls) :=
  decidable_of_iff ((∀ l ∈ ls, l.Ok) ∧ (ls.map (·.begin_)).Pairwise (· ≤ ·))
    ⟨fun h => ⟨h.1, h.2⟩, fun h => ⟨h.each, h.sorted⟩⟩

theorem start_inv (ordered : Prop) (ls : List VRegLifetime) (h : LifetimesOk ls) :
    ∃ cur, Inv ordered (start ls) cur := by
  have hkeys : ((List.range ls.length).map fun x => ((start ls).heap x).begin_) =
      ls.map (·.begin_) := by
    refine ext_getElem (by simp) (fun i h1 h2 => ?_)
    rw [length_map] at h2
    rw [getElem_map, getElem_map, getElem_range, start_heap h2]
    rfl
  have hsort : ((List.range ls.length).map fun x =>
      ((start ls).heap x).begin_).Pairwise (· ≤ ·) := by
    rw [hkeys]
    exact h.sorted
  have hmem : ∀ x ∈ (start ls).pending, (start ls).heap x ∈ ls := by
    intro x hx
    rw [start_heap (mem_range.mp hx)]
    exact get_mem ls _
  refine ⟨((start ls).heap 0).begin_, nodup_range, fun x hx => mem_range.mp hx,
    fun reg => nodup_nil, fun reg x hx => absurd hx not_mem_nil,
    fun x hx => ⟨h.each _ (hmem x hx), fun _ => ?_⟩, fun _ => hsort,
    fun _ x hx => absurd hx not_mem_nil, fun _ x hx => absurd hx not_mem_nil⟩
  have hlt : x < ls.length := mem_range.mp hx
  by_cases hzero : x = 0
  · rw [hzero]
  · have hle := pairwise_iff_getElem.mp hsort 0 x (by simp; omega) (by simpa using hlt)
      (Nat.pos_of_ne_zero hzero)
    simpa using hle

theorem run_inv {ls : List VRegLifetime} {steps : List Unit} {st : AllocState}
    (hls : LifetimesOk ls)
    (hrun : Lib.run AllocState.step (AllocState.start ls) steps = some st) :
    ∃ cur, Inv False st cur :=
  Lib.run_preserves step (fun s => ∃ cur, Inv False s cur)
    (fun s u s' => step_inv s s' u False.elim) steps _ st (start_inv False ls hls) hrun

theorem run_inv_ordered {ls : List VRegLifetime} {steps : List Unit} {st : AllocState}
    (hls : LifetimesOk ls)
    (hord : Lib.MeetsAlong AllocState.step (fun s _ => SpillsInOrder s) (AllocState.start ls) steps)
    (hrun : Lib.run AllocState.step (AllocState.start ls) steps = some st) :
    ∃ cur, Inv True st cur :=
  Lib.run_preserves_of step (fun s _ => SpillsInOrder s) (fun s => ∃ cur, Inv True s cur)
    (fun s u s' hord => step_inv s s' u fun _ => hord) steps _ st hord (start_inv True ls hls) hrun

/-- Along a run whose spills come in order, no two lifetimes that have the
    same hard register occupy a common position. -/
theorem allocate_interference_free (ls : List VRegLifetime) (steps : List Unit)
    (st : AllocState) (hls : LifetimesOk ls)
    (hord : Lib.MeetsAlong AllocState.step (fun s _ => SpillsInOrder s) (AllocState.start ls) steps)
    (hrun : Lib.run AllocState.step (AllocState.start ls) steps = some st) :
    ∀ x ∈ st.visited, ∀ y ∈ st.visited, x ≠ y → (st.heap x).hardReg = (st.heap y).hardReg →
      ∀ a ∈ (st.heap x).occupied, ∀ b ∈ (st.heap y).occupied, ¬ Overlap a b := by
  rcases run_inv_ordered hls hord hrun with ⟨cur, hi⟩
  exact hi.apart trivial

theorem spillAndAssign_list {st st' : AllocState} {x reg : Nat} {rest : List Nat}
    (h : st.spillAndAssignHardReg x reg rest = some st') :
    let result := spillLoop st.numSpillSlots (st.allocations reg).spills st ([], rest)
    (st'.advance x).pending = result.2.1 ++ result.2.2 ∧
      ∀ n, (st'.heap n).rangeList = (result.1.heap n).rangeList := by
  unfold spillAndAssignHardReg at h
  dsimp only at h
  split_ifs at h with hcheck
  cases h
  exact ⟨rfl, setHardReg_rangeList _ x reg⟩

/-- In any run, lifetimes are spilled while the list of those to come is sorted. The list is sorted
    again exactly if the uses moved in front of the next lifetime come in order. It holds what it
    held before and the tiny lifetimes, none of which begins before the lifetime just assigned. -/
theorem spillAndAssign_sorted_iff (ls : List VRegLifetime) (steps : List Unit)
    (st st' st'' : AllocState) (x reg : Nat) (rest : List Nat) (hls : LifetimesOk ls)
    (hrun : Lib.run AllocState.step (AllocState.start ls) steps = some st)
    (hsorted : (st.pending.map st.key).Pairwise (· ≤ ·))
    (hpending : st.pending = x :: rest) (hchoose : st.chooseReg x = some (st', some reg))
    (hspill : st'.spillAndAssignHardReg x reg rest = some st'') :
    let spills := (st'.allocations reg).spills
    let tiny := spills.flatMap (st'.tinies st'.numSpillSlots)
    let pending := (st''.advance x).pending
    ((pending.map st''.key).Pairwise (· ≤ ·) ↔
        ((movedBegins st'.heap (st'.key x) (spills.map (·.lifetime))).filter
          (beforeNext (rest.head?.map st'.key))).Pairwise (· ≤ ·)) ∧
      (pending.map fun n => (st''.heap n).rangeList).Perm
        ((rest.map fun n => (st'.heap n).rangeList) ++ tiny.map (·.rangeList)) ∧
      ∀ t ∈ tiny, st'.key x ≤ t.begin_ := by
  rcases run_inv hls hrun with ⟨cur, hi⟩
  have h := chooseReg_some (ready_of_inv st cur x rest hi hpending) st' reg hchoose
  have hspillable := h.spillable
  rcases spillLoop_list st'.numSpillSlots _ st' _ [] rest hspillable with ⟨hfront, hperm⟩
  rcases spillAndAssign_list hspill with ⟨hlist, hranges⟩
  have hkey : st''.key = _ := funext fun n => congrArg (fun rs => (rs.head?.map (·.begin_)).getD 0)
    (hranges n)
  refine ⟨⟨fun hagain => ?_, fun horder => ?_⟩, ?_, fun t ht => ?_⟩
  · rw [hlist, hkey, map_append] at hagain
    exact (congrArg (List.Pairwise (· ≤ ·)) hfront).mp (pairwise_append.mp hagain).1
  · rw [hpending, ← h.key_eq] at hsorted
    rw [hlist, hkey]
    exact spillLoop_sorted _ _ st' _ [] rest hspillable (pairwise_cons.mp hsorted).2 horder
  · have hmap := hperm.map VRegLifetime.rangeList
    simp only [nil_append, map_append, map_map] at hmap
    rw [hlist, funext hranges, map_append]
    exact hmap
  · rcases mem_flatMap.mp ht with ⟨s, hs, ht⟩
    rcases hspillable.each s hs with ⟨hok, hranges⟩
    exact (tinies_ok hranges hok _ t ht).2

def twoRegs : MachineRegClass := ⟨6, [1, 2]⟩

/-- A lifetime of the class with ranges given by their bounds and the bounds of their uses. -/
def lifetimeOf (ranges : List ((Int × Int) × List (Int × Int))) (weight : Int) : VRegLifetime :=
  { rangeList := ranges.map fun r =>
      ⟨r.1.1, r.1.2, r.2.map fun u => ⟨0, 0, u.1, u.2, twoRegs⟩⟩
    regClass := twoRegs
    hardReg := 0
    spillSlot := none
    spillWeight := weight
    moveHint := none }

/-- Three lifetimes on two registers. The last one spills the second, whose
    tiny lifetime then shares a register with the first. -/
def orderedSpills : List VRegLifetime :=
  [lifetimeOf [((0, 45), [(0, 1), (29, 31), (44, 45)])] 3,
    lifetimeOf [((0, 60), [(0, 1), (50, 51)])] 2,
    lifetimeOf [((30, 60), [(30, 31), (59, 60)])] 2]

theorem allocate_orderedSpills :
    ∃ st ∈ Lib.run AllocState.step (AllocState.start orderedSpills) (List.replicate 4 ()),
      st.pending = [] ∧ st.visited.map (fun x => (st.heap x).hardReg) = [1, 2, 2, 1] ∧
      ∀ x ∈ st.visited, ∀ y ∈ st.visited, x ≠ y → (st.heap x).hardReg = (st.heap y).hardReg →
        ∀ a ∈ (st.heap x).occupied, ∀ b ∈ (st.heap y).occupied, ¬ Overlap a b := by
  have hrun : ∃ st ∈ Lib.run step (start orderedSpills)
      (List.replicate 4 ()), st.pending = [] ∧
        st.visited.map (fun x => (st.heap x).hardReg) = [1, 2, 2, 1] := by decide
  rcases hrun with ⟨st, hst, hpending, hregs⟩
  exact ⟨st, hst, hpending, hregs,
    allocate_interference_free orderedSpills _ st (by decide) (by decide) hst⟩

theorem spillAndAssign_orderedSpills :
    ∃ st ∈ Lib.run AllocState.step (AllocState.start orderedSpills) [(), ()],
      ∃ c ∈ st.chooseReg 2, ∃ reg ∈ c.2, ∃ st' ∈ c.1.spillAndAssignHardReg 2 reg [],
        ((st'.advance 2).pending.map st'.key).Pairwise (· ≤ ·) := by
  have hrun : ∃ st ∈ Lib.run step (start orderedSpills) [(), ()], st.pending = [2] ∧
      ∃ c ∈ st.chooseReg 2, ∃ reg ∈ c.2, ∃ st' ∈ c.1.spillAndAssignHardReg 2 reg [],
        ((movedBegins c.1.heap (c.1.key 2) ((c.1.allocations reg).spills.map (·.lifetime))).filter
          (beforeNext none)).Pairwise (· ≤ ·) := by decide
  rcases hrun with ⟨st, hst, hpending, ⟨st1, _⟩, hc, reg, rfl, st', hst', horder⟩
  exact ⟨st, hst, _, hc, reg, rfl, st', hst',
    (spillAndAssign_sorted_iff orderedSpills _ st st1 st' 2
    reg [] (by decide) hst (by rw [hpending]; exact pairwise_singleton _ _) hpending hc hst').1.mpr
      horder⟩

/-- Four lifetimes on two registers. The last one spills the first and the third, whose tiny
    lifetimes begin at 50 and at 40, and both go to the end of the list. -/
def unorderedSpills : List VRegLifetime :=
  [lifetimeOf [((0, 10), [(0, 1)]), ((50, 60), [(50, 51)])] 2,
    lifetimeOf [((0, 45), [(0, 1), (29, 31), (44, 45)])] 3,
    lifetimeOf [((12, 45), [(12, 13), (40, 41)])] 2,
    lifetimeOf [((30, 60), [(30, 31), (59, 60)])] 2]

/-- Allocation runs to the end, and two lifetimes on one register overlap: the
    list of a register no longer holds a lifetime that ends at 45 when the
    tiny lifetime at 40 is allocated after the one at 50. -/
theorem allocate_unorderedSpills : LifetimesOk unorderedSpills ∧
    ∃ st ∈ Lib.run AllocState.step (AllocState.start unorderedSpills) (List.replicate 6 ()),
      st.pending = [] ∧ ∃ x ∈ st.visited, ∃ y ∈ st.visited, x ≠ y ∧
        (st.heap x).hardReg = (st.heap y).hardReg ∧
        ∃ a ∈ (st.heap x).occupied, ∃ b ∈ (st.heap y).occupied, Overlap a b := by
  decide

/-- The fourth step leaves a list that is not sorted. -/
theorem spillAndAssign_unorderedSpills :
    ∃ st ∈ Lib.run AllocState.step (AllocState.start unorderedSpills) [(), (), ()],
      (st.pending.map st.key).Pairwise (· ≤ ·) ∧
      ∃ st' ∈ st.step (), ¬ (st'.pending.map st'.key).Pairwise (· ≤ ·) := by
  decide

end Berberis.RegAlloc
