import Berberis.RuntimePrimitives.TranslationCacheInvariant

/-!
# Interleavings of the Translation Cache

The operations that walk over many entries, and with them every interleaving
of operations. Each loop is a sequence of changes at one pc, so it keeps the
invariant by induction on the entries it has yet to visit.

## Theorems

* `run_inv`: So does every interleaving of them.
* `lock_protocol`: What the invariant says about every reachable state.
-/

namespace Berberis.TranslationCache

open List Lib SortedMap

variable {Client : Type}

/-! ### Published code -/

variable {s : System Client} {start stop : Nat} {x : Nat × GuestCodeEntry}
  {nodes : List (Nat × GuestCodeEntry)} {c : TranslationCache} {flag : Bool}
  {held : List (Holder Client)} {published : List EntryPtr} {pc : Nat} {entry : GuestCodeEntry}
  {target range : Nat}

theorem inv_published (hi : Inv s) : Inv { s with published := published } := by
  refine ⟨fun pc => ?_, hi.max_pos⟩
  cases hget : s.cache.guestEntries.get? pc with
  | some entry => exact pcOk_some hget { hi.entry hget with }
  | none => exact pcOk_none hget { hi.absent hget with }

/-! ### Invalidation -/

/-- A pointer in `translating_` leads to an entry that is locked for
    translation, and is the only one there for its pc. -/
theorem translating_phase (ptr : EntryPtr) (hi : Inv s) (hmem : ptr ∈ s.cache.translating) :
    ∃ entry, s.cache.guestEntries.get? ptr.pc = some entry ∧ ptr = ⟨ptr.pc, entry.stamp⟩ ∧
      s.cache.translatingAt ptr.pc = [ptr] ∧ s.cache.slot ptr.pc = .kEntryTranslating := by
  have hat : ptr ∈ s.cache.translatingAt ptr.pc := mem_filter.mpr ⟨hmem, by simp⟩
  cases hget : s.cache.guestEntries.get? ptr.pc with
  | none =>
    rw [(hi.absent hget).translating] at hat
    exact absurd hat not_mem_nil
  | some entry =>
    have hphase := (hi.entry hget).phase
    cases hslot : s.cache.slot ptr.pc with
    | kEntryTranslating =>
      rw [hslot] at hphase
      have htr := hphase.2.1
      rw [htr] at hat
      have heq := mem_singleton.mp hat
      exact ⟨entry, rfl, heq, by rw [htr, ← heq], rfl⟩
    | kEntryWrapping | kEntryInvalidating | kEntryNotTranslated | code =>
      rw [hslot] at hphase
      exact absurd (hphase.2.1 ▸ hat) not_mem_nil

theorem slot_ne_translating (hi : Inv s) (htr : s.cache.translating = []) (hpc : pc < 2 ^ 48) :
    s.cache.slot pc ≠ .kEntryTranslating := by
  intro hslot
  cases hget : s.cache.guestEntries.get? pc with
  | none =>
    rw [(hi.absent hget).slot hpc] at hslot
    cases hslot
  | some entry =>
    have hphase := (hi.entry hget).phase
    rw [hslot] at hphase
    have hat : s.cache.translatingAt pc = [] := by rw [translatingAt, htr, filter_nil]
    rw [hat] at hphase
    cases hphase.2.1

/-- The entries and slots after the entries being translated were abandoned:
    their slots say so, and all else is as it was. -/
structure Abandoned (c d : TranslationCache) : Prop where
  get : ∀ pc, d.guestEntries.get? pc = (c.guestEntries.get? pc).map fun entry =>
    if c.slot pc = .kEntryTranslating then { entry with hostSize := 0 } else entry
  slot : ∀ pc, pc < 2 ^ 48 → d.slot pc =
    if c.slot pc = .kEntryTranslating then .kEntryInvalidating else c.slot pc

/-- Entries being translated are locked as such, so the `CHECK`s of
    `InvalidateEntriesBeingTranslatedUnsafe` pass. -/
theorem invalidateTranslating_inv (ptrs : List EntryPtr) (c : TranslationCache)
    (held : List (Holder Client)) (hi : Inv ⟨{ c with translating := ptrs }, held, []⟩) :
    ∃ d, c.invalidateTranslating ptrs = .ok d ∧ Inv ⟨{ d with translating := [] }, held, []⟩ ∧
      Abandoned c d := by
  induction ptrs generalizing c with
  | nil =>
    have hne : ∀ pc, pc < 2 ^ 48 → c.slot pc ≠ .kEntryTranslating :=
      fun pc => slot_ne_translating hi rfl
    refine ⟨c, rfl, hi, fun pc => ?_, fun pc hpc => (if_neg (hne pc hpc)).symm⟩
    cases hget : c.guestEntries.get? pc with
    | none => rfl
    | some entry => rw [Option.map_some, if_neg (hne pc (hi.entry hget).untagged)]
  | cons ptr ptrs ih =>
    rcases translating_phase ptr hi mem_cons_self with ⟨entry, hget, hptr, hat, hslot⟩
    have he := hi.entry hget
    have hphase := he.phase
    rw [hslot] at hphase
    have hder : c.deref ptr = .ok entry := by
      rw [hptr]
      exact deref_eq hget
    have hload : c.addressMap entry.hostCode = .kEntryTranslating :=
      (addressMap_hostCode he).trans hslot
    have hstep := inv_replace entry { entry with hostSize := 0 } .kEntryInvalidating
      ptrs [] c.maxGuestSize held hi hget rfl he.size_pos he.size_lt he.size_le le_rfl
      (fun q hq => (filter_cons_of_ne EntryPtr.pc ptr ptrs q hq).symm) (fun _ _ => rfl)
      ⟨hphase.1, List.cons.inj ((filter_cons_self EntryPtr.pc ptr ptrs).symm.trans hat) |>.2,
        hphase.2.2.imp fun client hheld => ⟨.translation, hheld⟩⟩
    rcases ih ((c.store entry.hostCode .kEntryInvalidating).setEntry ptr.pc
      { entry with hostSize := 0 }) hstep with ⟨d, hd, hinv, haband⟩
    refine ⟨d, ?_, hinv, ?_, ?_⟩
    · rw [invalidateTranslating, hder]
      refine (check_bind hphase.1).trans ((check_bind hload).trans hd)
    · intro pc
      rw [haband.get pc, setEntry_guestEntries, get?_insert]
      by_cases hpc : pc = ptr.pc
      · have hc : c.guestEntries.get? ptr.pc = some entry := hget
        rw [hpc, if_pos rfl, hc, setEntry_slot,
          slot_store he.hostCode he.untagged he.untagged, if_pos rfl]
        rw [show c.slot ptr.pc = .kEntryTranslating from hslot]
        rfl
      · rw [if_neg (fun h => hpc h.symm), store_guestEntries]
        cases hc : c.guestEntries.get? pc with
        | none => rfl
        | some e =>
          rw [setEntry_slot, slot_store he.hostCode he.untagged
            (hi.entry hc).untagged, if_neg hpc]
    · intro pc hlt
      rw [haband.slot pc hlt, setEntry_slot, slot_store he.hostCode he.untagged hlt]
      by_cases hpc : pc = ptr.pc
      · rw [if_pos hpc, hpc, show c.slot ptr.pc = .kEntryTranslating from hslot]
        rfl
      · rw [if_neg hpc]

/-- What the loop of `InvalidateGuestRange` has done to the nodes it was
    given: overlapped ones have lost their code, others are as they were. -/
structure Invalidated (start stop : Nat) (nodes : List (Nat × GuestCodeEntry))
    (c d : TranslationCache) : Prop where
  hit : ∀ x ∈ nodes, Overlaps start stop x.1 x.2 →
    d.slot x.1 = .kEntryNotTranslated ∨ d.slot x.1 = .kEntryInvalidating
  miss : ∀ pc, (∀ x ∈ nodes, x.1 = pc → ¬ Overlaps start stop x.1 x.2) →
    d.guestEntries.get? pc = c.guestEntries.get? pc ∧
      (pc < 2 ^ 48 → d.slot pc = c.slot pc)

/-- The nodes of a loop are entries of the cache, in the order of their pcs. -/
structure Nodes (c : TranslationCache) (nodes : List (Nat × GuestCodeEntry)) : Prop where
  get : ∀ x ∈ nodes, c.guestEntries.get? x.1 = some x.2
  sorted : nodes.Pairwise fun x y => x.1 < y.1

theorem Nodes.tail {c : TranslationCache} {x : Nat × GuestCodeEntry}
    {nodes : List (Nat × GuestCodeEntry)} (h : Nodes c (x :: nodes)) : Nodes c nodes :=
  ⟨fun y hy => h.get y (mem_cons_of_mem x hy), (pairwise_cons.mp h.sorted).2⟩

theorem guestEnd_eq (he : EntryOk s pc entry) : guestEnd pc entry = pc + entry.guestSize := by
  have hpc := he.untagged
  have hsize := he.size_lt
  rw [guestEnd]
  omega

theorem inv_store (code : HostCodeAddr)
    (hi : Inv s) (hget : s.cache.guestEntries.get? pc = some entry)
    (hphase : PhaseOk pc entry (s.cache.translatingAt pc) (s.heldAt pc) code) :
    Inv { s with cache := s.cache.store entry.hostCode code } := by
  have he := hi.entry hget
  have hsame : (s.cache.store entry.hostCode code).setEntry pc entry =
      s.cache.store entry.hostCode code := by
    rw [setEntry, store_guestEntries, insert_eq_self _ _ _ hget]
    rfl
  have h := inv_replace entry entry code s.cache.translating s.published
    s.cache.maxGuestSize s.held hi hget rfl he.size_pos he.size_lt he.size_le le_rfl
    (fun _ _ => rfl) (fun _ _ => rfl) hphase
  rw [hsame] at h
  exact h

/-- What the loop does to one overlapped node. -/
structure Hit (x : Nat × GuestCodeEntry) (c c' : TranslationCache) : Prop where
  done : c'.slot x.1 = .kEntryNotTranslated ∨ c'.slot x.1 = .kEntryInvalidating
  others : ∀ q, q ≠ x.1 → c'.guestEntries.get? q = c.guestEntries.get? q
  slot : ∀ q, q ≠ x.1 → q < 2 ^ 48 → c'.slot q = c.slot q

theorem invalidated_cons {c c' d : TranslationCache}
    (hsort : ∀ y ∈ nodes, x.1 < y.1) (hx : Overlaps start stop x.1 x.2) (hlt : x.1 < 2 ^ 48)
    (hhit : Hit x c c') (h : Invalidated start stop nodes c' d) :
    Invalidated start stop (x :: nodes) c d := by
  refine ⟨fun y hy hover => ?_, fun q hq => ?_⟩
  · rcases mem_cons.mp hy with rfl | hmem
    · rw [(h.miss y.1 (fun z hz hzy => absurd hzy (hsort z hz).ne')).2 hlt]
      exact hhit.done
    · exact h.hit y hmem hover
  · have hne : q ≠ x.1 := fun heq => hq x mem_cons_self heq.symm hx
    have hmiss := h.miss q (fun z hz => hq z (mem_cons_of_mem x hz))
    exact ⟨hmiss.1.trans (hhit.others q hne),
      fun hqlt => (hmiss.2 hqlt).trans (hhit.slot q hne hqlt)⟩

theorem invalidated_skip (c d : TranslationCache)
    (hx : ¬ Overlaps start stop x.1 x.2) (h : Invalidated start stop nodes c d) :
    Invalidated start stop (x :: nodes) c d := by
  refine ⟨fun y hy hover => ?_, fun q hq => ?_⟩
  · rcases mem_cons.mp hy with rfl | hmem
    · exact absurd hover hx
    · exact h.hit y hmem hover
  · exact h.miss q (fun z hz => hq z (mem_cons_of_mem x hz))

/-- What the loop of `InvalidateGuestRange` comes to from a cache on: it fails no `CHECK`, and
    returns true if it took code away or was already to return true. -/
def LoopOk (start stop : Nat) (nodes : List (Nat × GuestCodeEntry)) (c : TranslationCache)
    (flag : Bool) (held : List (Holder Client)) (r : Except Failure (TranslationCache × Bool)) :
    Prop :=
  ∃ d b, r = .ok (d, b) ∧ Inv ⟨d, held, []⟩ ∧ Invalidated start stop nodes c d ∧
    (b = true ↔ flag = true ∨ ∃ x ∈ nodes, Overlaps start stop x.1 x.2 ∧
      c.slot x.1 ≠ .kEntryInvalidating)

theorem loopOk_hit {c : TranslationCache} (c' : TranslationCache) {flag : Bool}
    {held : List (Holder Client)} {r : Except Failure (TranslationCache × Bool)}
    (hsort : ∀ y ∈ nodes, x.1 < y.1) (hx : Overlaps start stop x.1 x.2) (hlt : x.1 < 2 ^ 48)
    (hhit : Hit x c c') (hne : c.slot x.1 ≠ .kEntryInvalidating)
    (h : LoopOk start stop nodes c' true held r) :
    LoopOk start stop (x :: nodes) c flag held r := by
  rcases h with ⟨d, b, hd, hinv, hinval, hb⟩
  refine ⟨d, b, hd, hinv, invalidated_cons hsort hx hlt hhit hinval, ?_⟩
  exact iff_of_true (hb.mpr (Or.inl rfl)) (Or.inr ⟨_, mem_cons_self, hx, hne⟩)

theorem loopOk_of_none (hi : Inv ⟨c, held, []⟩)
    (hnone : ∀ x ∈ nodes, ¬ Overlaps start stop x.1 x.2) :
    LoopOk start stop nodes c flag held (.ok (c, flag)) := by
  refine ⟨c, flag, rfl, hi, ⟨fun x hx hover => absurd hover (hnone x hx),
    fun _ _ => ⟨rfl, fun _ => rfl⟩⟩, Or.inl, fun h => h.resolve_right ?_⟩
  rintro ⟨x, hx, hover, _⟩
  exact hnone x hx hover

theorem loopOk_skip (r : Except Failure (TranslationCache × Bool))
    (hsort : ∀ y ∈ nodes, x.1 < y.1) (hlt : x.1 < 2 ^ 48)
    (hx : Overlaps start stop x.1 x.2 → c.slot x.1 = .kEntryInvalidating)
    (h : LoopOk start stop nodes c flag held r) : LoopOk start stop (x :: nodes) c flag held r := by
  rcases h with ⟨d, b, hd, hinv, hinval, hb⟩
  refine ⟨d, b, hd, hinv, ?_, hb.trans ?_⟩
  · by_cases hover : Overlaps start stop x.1 x.2
    · exact invalidated_cons hsort hover hlt
        ⟨Or.inr (hx hover), fun _ _ => rfl, fun _ _ _ => rfl⟩ hinval
    · exact invalidated_skip _ _ hover hinval
  · have hnot : ¬ (Overlaps start stop x.1 x.2 ∧ c.slot x.1 ≠ .kEntryInvalidating) :=
      fun hboth => hboth.2 (hx hboth.1)
    simp [hnot]

theorem invalidateNodes_inv
    (hi : Inv ⟨c, held, []⟩) (htr : c.translating = []) (hnod : Nodes c nodes) :
    LoopOk start stop nodes c flag held (invalidateNodes start stop c flag nodes) := by
  induction nodes generalizing c flag with
  | nil => exact loopOk_of_none hi (fun x hx => absurd hx not_mem_nil)
  | cons x nodes ih =>
    rcases x with ⟨pc, entry⟩
    have hget : c.guestEntries.get? pc = some entry := hnod.get _ mem_cons_self
    have hsort := (pairwise_cons.mp hnod.sorted).1
    have he := hi.entry hget
    rw [invalidateNodes, check_bind he.size_pos, guestEnd_eq he]
    by_cases hst : pc + entry.guestSize ≤ start
    · rw [if_pos hst]
      exact loopOk_skip _ hsort he.untagged
        (fun hover => absurd hover.1 (not_lt.mpr hst)) (ih hi htr hnod.tail)
    rw [if_neg hst]
    by_cases hstop : stop ≤ pc
    · -- The pcs of the other nodes are larger still.
      rw [if_pos hstop]
      refine loopOk_of_none hi (fun y hy hover => ?_)
      rcases mem_cons.mp hy with rfl | hmem
      · exact absurd hover.2 (not_lt.mpr hstop)
      · exact absurd hover.2 (not_lt.mpr (hstop.trans (hsort y hmem).le))
    rw [if_neg hstop, show c.addressMap entry.hostCode = c.slot pc from addressMap_hostCode he]
    have hx : Overlaps start stop pc entry := ⟨not_le.mp hst, not_le.mp hstop⟩
    have hphase := he.phase
    have hslots : ∀ code q, q ≠ pc → q < 2 ^ 48 →
        (c.store entry.hostCode code).slot q = c.slot q := by
      intro code q hq hlt
      rw [slot_store he.hostCode he.untagged hlt, if_neg hq]
    have hslot : ∀ code, (c.store entry.hostCode code).slot pc = code := by
      intro code
      rw [slot_store he.hostCode he.untagged he.untagged, if_pos rfl]
    -- An entry that nobody works on is erased; the nodes that follow have other pcs.
    have herase : ¬ (c.slot pc).IsLock → LoopOk start stop ((pc, entry) :: nodes) c flag held
        (invalidateNodes start stop
          ((c.store entry.hostCode .kEntryNotTranslated).eraseEntry pc) true nodes) := by
      intro hfree
      rcases (phaseOk_unlocked hfree).mp hphase with ⟨_, hat, hheld⟩
      have hgets : ∀ q, q ≠ pc →
          ((c.store entry.hostCode .kEntryNotTranslated).eraseEntry pc).guestEntries.get? q =
            c.guestEntries.get? q :=
        fun q hq => (get?_erase _ _ _).trans (if_neg hq.symm)
      refine loopOk_hit
        ((c.store entry.hostCode .kEntryNotTranslated).eraseEntry pc) hsort hx he.untagged
        ⟨Or.inl (hslot _), hgets, hslots _⟩
        (fun h => hfree (Or.inr (Or.inl h)))
        (ih (inv_erase _ hi hget (fun q => ?_) (fun q => ?_)) htr
          ⟨fun y hy => ?_, hnod.tail.sorted⟩)
      · split_ifs with hq
        · rw [hq]
          exact hat
        · rfl
      · split_ifs with hq
        · rw [hq]
          exact hheld
        · rfl
      · exact (hgets y.1 (hsort y hy).ne').trans (hnod.tail.get y hy)
    cases hcode : c.slot pc with
    | kEntryInvalidating =>
      exact loopOk_skip _ hsort he.untagged (fun _ => hcode)
        (ih hi htr hnod.tail)
    | kEntryWrapping =>
      -- The client that wraps it still has the pointer, and drops the entry when it is done.
      rw [hcode] at hphase
      have hinv := inv_store .kEntryInvalidating hi hget
        ⟨hphase.1, hphase.2.1, hphase.2.2.2.imp fun _ h => ⟨_, h⟩⟩
      exact loopOk_hit _ hsort hx he.untagged
        ⟨Or.inr (hslot _), fun _ _ => rfl, hslots _⟩ (by rw [hcode]; decide)
        (ih hinv htr ⟨hnod.tail.get, hnod.tail.sorted⟩)
    | kEntryTranslating => exact absurd hcode (slot_ne_translating hi htr he.untagged)
    | kEntryNotTranslated => exact herase (by rw [hcode]; decide)
    | code addr => exact herase (by rw [hcode]; rintro (h | h | h) <;> cases h)

theorem nodes_toList : Nodes c c.guestEntries.toList :=
  ⟨fun _ hx => mem_toList.mp hx, c.guestEntries.sorted⟩

theorem nodes_upperBound (k : Nat) : Nodes c (c.guestEntries.upperBound k) :=
  ⟨fun x hx => (nodes_toList).get x ((mem_upperBound _ _ _).mp hx).1,
    c.guestEntries.sorted.sublist (dropWhile_sublist _)⟩

theorem nodes_lowerBound (k : Nat) : Nodes c (c.guestEntries.lowerBound k) :=
  ⟨fun x hx => (nodes_toList).get x ((mem_lowerBound _ _ _).mp hx).1,
    c.guestEntries.sorted.sublist (dropWhile_sublist _)⟩

/-- `InvalidateGuestRange` fails no `CHECK`. It returns true if an overlapped entry was not locked
    for translation, and no overlapped entry has code after it. -/
theorem invalidateGuestRange_inv (hi : Inv s) :
    ∃ d b, s.cache.invalidateGuestRange start stop = .ok (d, b) ∧
      (∀ published, Inv ⟨d, s.held, published⟩) ∧
      (b = true ↔ ∃ pc entry, s.cache.guestEntries.get? pc = some entry ∧
        Overlaps start stop pc entry ∧ s.cache.slot pc ≠ .kEntryTranslating ∧
        s.cache.slot pc ≠ .kEntryInvalidating) ∧
      ∀ pc entry, s.cache.guestEntries.get? pc = some entry → Overlaps start stop pc entry →
        d.slot pc = .kEntryNotTranslated ∨ d.slot pc = .kEntryInvalidating := by
  rcases invalidateTranslating_inv s.cache.translating s.cache s.held (inv_published hi)
    with ⟨c', hc', hinv, haband⟩
  -- The entries from the bound on are all that can be overlapped.
  let c : TranslationCache := { c' with translating := [] }
  let first := if start ≤ c.maxGuestSize then c.guestEntries.toList
    else c.guestEntries.upperBound (start - c.maxGuestSize)
  have hnod : Nodes c first := by
    by_cases hmax : start ≤ c.maxGuestSize
    · rw [show first = c.guestEntries.toList from if_pos hmax]
      exact nodes_toList
    · rw [show first = _ from if_neg hmax]
      exact nodes_upperBound _
  have hfst : ∀ pc entry, c.guestEntries.get? pc = some entry →
      Overlaps start stop pc entry → (pc, entry) ∈ first := by
    intro pc entry hget hover
    have hmem := mem_toList.mpr hget
    by_cases hmax : start ≤ c.maxGuestSize
    · rw [show first = c.guestEntries.toList from if_pos hmax]
      exact hmem
    · rw [show first = _ from if_neg hmax]
      refine (mem_upperBound _ _ _).mpr ⟨hmem, ?_⟩
      have hsize : entry.guestSize ≤ c.maxGuestSize := (hinv.entry hget).size_le
      have hlt := hover.1
      omega
  have hget : ∀ pc entry, s.cache.guestEntries.get? pc = some entry →
      ∃ entry', c.guestEntries.get? pc = some entry' ∧ entry'.guestSize = entry.guestSize := by
    intro pc entry hentry
    have h := haband.get pc
    rw [hentry, Option.map_some] at h
    exact ⟨_, h, by split_ifs <;> rfl⟩
  rcases invalidateNodes_inv hinv rfl hnod
    with ⟨d, b, hd, hinv', hinval, hb⟩
  refine ⟨d, b, ?_, fun _ => inv_published hinv', hb.trans ?_, ?_⟩
  · simp only [invalidateGuestRange, invalidateEntriesBeingTranslatedUnsafe, hc', bind, Except.bind]
    exact hd
  · simp only [Bool.false_eq_true, false_or]
    constructor
    · rintro ⟨x, hx, hover, hne⟩
      have hxget := hnod.get x hx
      have hslot : c.slot x.1 = _ := haband.slot x.1 (hinv.entry hxget).untagged
      have h := haband.get x.1
      rw [show c'.guestEntries.get? x.1 = some x.2 from hxget] at h
      rcases Option.map_eq_some_iff.mp h.symm with ⟨entry, hentry, heq⟩
      refine ⟨x.1, entry, hentry, ?_, ?_, ?_⟩
      · have hsize : entry.guestSize = x.2.guestSize := by
          rw [← heq]
          split_ifs <;> rfl
        rw [Overlaps, hsize]
        exact hover
      · intro htr
        exact hne (hslot.trans (if_pos htr))
      · intro hinva
        refine hne (hslot.trans ?_)
        rw [hinva]
        rfl
    · rintro ⟨pc, entry, hentry, hover, htr, hinva⟩
      rcases hget pc entry hentry with ⟨entry', hentry', hsize⟩
      have hover' : Overlaps start stop pc entry' := by
        rw [Overlaps, hsize]
        exact hover
      refine ⟨(pc, entry'), hfst pc entry' hentry' hover', hover', ?_⟩
      rw [show c.slot pc = _ from haband.slot pc (hi.entry hentry).untagged, if_neg htr]
      exact hinva
  · intro pc entry hentry hover
    rcases hget pc entry hentry with ⟨entry', hentry', hsize⟩
    have hover' : Overlaps start stop pc entry' := by
      rw [Overlaps, hsize]
      exact hover
    exact hinval.hit _ (hfst pc entry' hentry' hover') hover'

/-! ### Gear shift and fork -/

theorem gearShiftNodes_inv (nodes : List (Nat × GuestCodeEntry))
    (s : System Client) (hi : Inv s) (hnod : Nodes s.cache nodes) :
    ∃ d, gearShiftNodes target range s.cache nodes = .ok d ∧ Inv { s with cache := d } := by
  induction nodes generalizing s with
  | nil => exact ⟨s.cache, rfl, hi⟩
  | cons x nodes ih =>
    rcases x with ⟨pc, entry⟩
    have hget : s.cache.guestEntries.get? pc = some entry := hnod.get _ mem_cons_self
    rw [gearShiftNodes, check_bind (hi.entry hget).size_pos]
    split_ifs
    · exact ⟨s.cache, rfl, hi⟩
    · refine ih _ (inv_setEntry kGearSwitchThreshold hi hget)
        ⟨fun y hy => ?_, hnod.tail.sorted⟩
      have hne : pc ≠ y.1 := ((pairwise_cons.mp hnod.sorted).1 y hy).ne
      exact ((get?_insert _ _ _ _).trans (if_neg hne)).trans
        (hnod.tail.get y hy)
    · exact ih s hi hnod.tail

theorem triggerGearShift_inv (hi : Inv s) :
    ∃ d, s.cache.triggerGearShift target range = .ok d ∧ Inv { s with cache := d } :=
  gearShiftNodes_inv _ s hi (nodes_lowerBound _)

/-- The loop of `FinishFork` when `translating_` is cleared and the clients
    are gone: the entries that do not fit that are yet to be visited. -/
theorem dropUnfinished_inv (htr : c.translating = []) (hnod : Nodes c nodes)
    (h : ∀ pc, PcOk (⟨c, [], published⟩ : System Client) pc ∨
      ∃ entry, (pc, entry) ∈ nodes ∧ entry.kind = .kUnderProcessing ∧ pc < 2 ^ 48 ∧
        entry.hostCode = SplitKey.ofKey pc) :
    (∀ pc, PcOk (⟨dropUnfinished c nodes, [], published⟩ : System Client) pc) ∧
      (dropUnfinished c nodes).maxGuestSize = c.maxGuestSize := by
  induction nodes generalizing c with
  | nil =>
    refine ⟨fun pc => (h pc).resolve_right ?_, rfl⟩
    rintro ⟨entry, hmem, _⟩
    exact not_mem_nil hmem
  | cons x nodes ih =>
    rcases x with ⟨pc, entry⟩
    have hget : c.guestEntries.get? pc = some entry := hnod.get _ mem_cons_self
    have hpc : PcOk (⟨c, [], published⟩ : System Client) pc ∨
        entry.kind = .kUnderProcessing ∧ pc < 2 ^ 48 ∧ entry.hostCode = SplitKey.ofKey pc := by
      refine (h pc).imp_right ?_
      rintro ⟨e, hmem, hrest⟩
      have he := hget.symm.trans (hnod.get _ hmem)
      rw [Option.some.inj he]
      exact hrest
    rw [dropUnfinished]
    by_cases hkind : entry.kind = .kUnderProcessing
    · rw [if_pos hkind]
      have hplace : pc < 2 ^ 48 ∧ entry.hostCode = SplitKey.ofKey pc := by
        rcases hpc with hpc | hpc
        · rw [PcOk, hget] at hpc
          exact ⟨hpc.untagged, hpc.hostCode⟩
        · exact hpc.2
      have hgets : ∀ q, q ≠ pc →
          ((c.store entry.hostCode .kEntryNotTranslated).eraseEntry pc).guestEntries.get? q =
            c.guestEntries.get? q :=
        fun q hq => (get?_erase _ _ _).trans (if_neg hq.symm)
      have hat : ∀ q, c.translatingAt q = [] := fun q => by
        rw [translatingAt, htr, filter_nil]
      refine ih htr ⟨fun y hy => ?_, hnod.tail.sorted⟩ (fun q => ?_)
      · have hne : y.1 ≠ pc := ((pairwise_cons.mp hnod.sorted).1 y hy).ne'
        exact (hgets y.1 hne).trans (hnod.tail.get y hy)
      · by_cases hq : q = pc
        · refine Or.inl (pcOk_none ?_ ⟨fun hlt => ?_, hat q, rfl⟩)
          · rw [hq]
            exact (get?_erase _ _ _).trans (if_pos rfl)
          · rw [eraseEntry_slot, slot_store hplace.2 hplace.1 hlt, if_pos hq]
        · refine (h q).imp (fun hok => ?_) ?_
          · refine pcOk_elsewhere ⟨c, [], published⟩ _ pc q
              ⟨hgets, fun r hr hlt => ?_, fun _ _ => rfl,
              fun _ _ => rfl, le_rfl⟩ hq hok
            rw [eraseEntry_slot, slot_store hplace.2 hplace.1 hlt, if_neg hr]
          · rintro ⟨e, hmem, hrest⟩
            rcases mem_cons.mp hmem with heq | hmem
            · exact absurd (congrArg Prod.fst heq) hq
            · exact ⟨e, hmem, hrest⟩
    · rw [if_neg hkind]
      refine ih htr hnod.tail (fun q => ?_)
      refine (h q).elim Or.inl ?_
      rintro ⟨e, hmem, hrest⟩
      rcases mem_cons.mp hmem with heq | hmem
      · rcases Prod.mk.inj heq with ⟨rfl, rfl⟩
        exact Or.inl (hpc.resolve_right (fun hpend => hkind hpend.1))
      · exact Or.inr ⟨e, hmem, hrest⟩

theorem finishFork_inv (hi : Inv s) :
    Inv ({ s with cache := s.cache.finishFork true, held := [] } : System Client) := by
  let c : TranslationCache := { s.cache with translating := [] }
  have h := @dropUnfinished_inv Client s.cache.guestEntries.toList c s.published rfl
    nodes_toList ?_
  · exact ⟨h.1, h.2 ▸ hi.max_pos⟩
  · intro pc
    cases hget : s.cache.guestEntries.get? pc with
    | none => exact Or.inl (pcOk_none hget ⟨(hi.absent hget).slot, rfl, rfl⟩)
    | some entry =>
      have he := hi.entry hget
      by_cases hkind : entry.kind = .kUnderProcessing
      · exact Or.inr ⟨entry, mem_toList.mpr hget, hkind, he.untagged, he.hostCode⟩
      · have hfree : ¬ (s.cache.slot pc).IsLock := (kind_iff_isLock he).not.mp hkind
        exact Or.inl (pcOk_some hget { he with
          phase := (phaseOk_unlocked hfree).mpr ⟨hkind, rfl, rfl⟩ })

/-! ### Interleavings -/

theorem init_inv : Inv (init : System Client) :=
  ⟨fun _ => pcOk_none rfl ⟨fun _ => rfl, rfl, rfl⟩, Nat.one_pos⟩

variable [DecidableEq Client]

theorem step_inv (s : System Client) (a : Action Client) (h : Legal s a ∧ Untagged a)
    (hi : Inv s) : ∃ t, step s a = some t ∧ Inv t := by
  rcases h with ⟨hleg, hunt⟩
  cases a with
  | addAndLockForTranslation client pc counterThreshold =>
    rcases addAndLockForTranslation_inv pc counterThreshold hi hunt
      with ⟨r, hr, hinv⟩
    exact ⟨_, by rw [step, exec, hr]; rfl, hinv⟩
  | lockForGearUpTranslation client pc =>
    rcases lockForGearUpTranslation_inv pc hi with ⟨r, hr, hinv⟩
    exact ⟨_, by rw [step, exec, hr]; rfl, hinv⟩
  | setTranslatedAndUnlock client ptr guestSize kind piece =>
    rcases setTranslatedAndUnlock_inv ptr guestSize kind piece hi hleg
      with ⟨c, hc, hinv⟩
    exact ⟨_, by rw [step, exec, hc]; rfl, hinv⟩
  | addAndLockForWrapping client pc =>
    exact ⟨_, rfl, addAndLockForWrapping_inv pc hi hunt⟩
  | setWrappedAndUnlock client ptr isHostFunc piece =>
    rcases setWrappedAndUnlock_inv ptr isHostFunc piece hi hleg with ⟨c, hc, hinv⟩
    exact ⟨_, by rw [step, exec, hc]; rfl, hinv⟩
  | invalidateGuestRange start stop =>
    rcases invalidateGuestRange_inv hi with ⟨d, b, hd, hinv, _⟩
    exact ⟨_, by rw [step, exec, hd]; rfl, hinv _⟩
  | triggerGearShift target range =>
    rcases triggerGearShift_inv hi with ⟨d, hd, hinv⟩
    exact ⟨_, by rw [step, exec, hd]; rfl, hinv⟩
  | finishFork isChild =>
    cases isChild with
    | true => exact ⟨_, rfl, finishFork_inv hi⟩
    | false => exact ⟨_, rfl, hi⟩

/-- The clients keep to the protocol all along an interleaving, and no pc
    that gets an entry is tagged. -/
def Protocol (acts : List (Action Client)) : Prop :=
  Lib.MeetsAlong step (fun s a => Legal s a ∧ Untagged a) init acts

theorem run_inv (acts : List (Action Client)) (h : Protocol acts) :
    ∃ s, Lib.run step init acts = some s ∧ Inv s :=
  Lib.run_total_of step (fun s a => Legal s a ∧ Untagged a) Inv step_inv acts init h init_inv

/-- Any interleaving of operations by clients that keep to the protocol fails no `CHECK`, and leads
    to a state in which a pc has at most one holder, an entry is in `translating_` exactly when its
    slot says so, its kind is `kUnderProcessing` exactly when its slot says that it is locked, its
    size is within bounds, and a pc without an entry is not translated. -/
theorem lock_protocol (acts : List (Action Client)) (h : Protocol acts) :
    ∃ s, Lib.run step init acts = some s ∧
      (∀ x ∈ s.held, ∀ y ∈ s.held, x.ptr.pc = y.ptr.pc → x = y) ∧ (∀ pc, (s.heldAt pc).length ≤ 1) ∧
      (∀ ptr ∈ s.cache.translating, ∃ entry, s.cache.guestEntries.get? ptr.pc = some entry ∧
        entry.stamp = ptr.stamp) ∧ (∀ pc entry, s.cache.guestEntries.get? pc = some entry →
        (⟨pc, entry.stamp⟩ ∈ s.cache.translating ↔ s.cache.slot pc = .kEntryTranslating) ∧
        (entry.kind = .kUnderProcessing ↔
          s.cache.slot pc = .kEntryTranslating ∨ s.cache.slot pc = .kEntryInvalidating ∨
            s.cache.slot pc = .kEntryWrapping) ∧
        1 ≤ entry.guestSize ∧ entry.guestSize ≤ s.cache.maxGuestSize) ∧
      ∀ pc, pc < 2 ^ 48 → s.cache.guestEntries.get? pc = none →
        s.cache.slot pc = .kEntryNotTranslated := by
  rcases run_inv acts h with ⟨s, hs, hi⟩
  have halone : ∀ x ∈ s.held, s.heldAt x.ptr.pc = [x] := by
    intro x hx
    rcases holder_phase hi hx with ⟨_, _, _, hat, _⟩
    exact hat
  refine ⟨s, hs, fun x hx y hy hxy => ?_, fun pc => ?_, fun ptr hptr => ?_,
    fun pc entry hget => ?_, fun pc hpc hget => (hi.absent hget).slot hpc⟩
  · have hxat := halone x hx
    rw [hxy, halone y hy] at hxat
    exact (List.cons.inj hxat).1.symm
  · cases hat : s.heldAt pc with
    | nil => exact Nat.zero_le 1
    | cons x xs =>
      have hx : x ∈ s.heldAt pc := hat ▸ mem_cons_self
      rcases mem_filter.mp hx with ⟨hmem, hpc⟩
      rw [← hat, ← of_decide_eq_true hpc, halone x hmem]
      exact le_rfl
  · rcases translating_phase ptr hi hptr with ⟨entry, hget, heq, _⟩
    exact ⟨entry, hget, (congrArg EntryPtr.stamp heq).symm⟩
  · have he := hi.entry hget
    refine ⟨⟨fun hmem => ?_, fun hslot => ?_⟩, kind_iff_isLock he, he.size_pos, he.size_le⟩
    · rcases translating_phase _ hi hmem with ⟨_, _, _, _, hslot⟩
      exact hslot
    · have hphase := he.phase
      rw [hslot] at hphase
      exact (mem_filter.mp (hphase.2.1 ▸ mem_singleton_self _)).1

/-- A slot is locked exactly as long as a client holds its entry, also after an invalidation and in
    the child of a fork. -/
theorem isLock_iff_held (acts : List (Action Client)) (h : Protocol acts) :
    ∃ s, Lib.run step init acts = some s ∧ ∀ pc < 2 ^ 48,
      ((s.cache.slot pc).IsLock ↔ s.heldAt pc ≠ []) := by
  rcases run_inv acts h with ⟨s, hs, hi⟩
  refine ⟨s, hs, fun pc hpc => ?_⟩
  cases hget : s.cache.guestEntries.get? pc with
  | none =>
    rw [(hi.absent hget).slot hpc, (hi.absent hget).held]
    exact iff_of_false (by decide) (not_not.mpr rfl)
  | some entry =>
    have hphase := (hi.entry hget).phase
    refine ⟨fun hlock hnone => ?_, fun hheld => ?_⟩
    · -- The phase of a lock names its holder.
      rw [hnone] at hphase
      rcases hlock with hslot | hslot | hslot
      all_goals
        rw [hslot] at hphase
        simp [PhaseOk] at hphase
    · by_contra hfree
      exact hheld ((phaseOk_unlocked hfree).mp hphase).2.2

omit [DecidableEq Client] in
/-- A region is translated, locked again for the next gear and invalidated
    while another client wraps a function. -/
def gearUpActions (client : Client) : List (Action Client) :=
  [.addAndLockForTranslation client 4096 0,
    .setTranslatedAndUnlock client ⟨4096, 0⟩ 8 .kLiteTranslated ⟨.code 1, 16⟩,
    .lockForGearUpTranslation client 4096,
    .addAndLockForWrapping client 8192,
    .invalidateGuestRange 4100 4104,
    .setTranslatedAndUnlock client ⟨4096, 0⟩ 12 .kHeavyOptimized ⟨.code 2, 32⟩,
    .setWrappedAndUnlock client ⟨8192, 1⟩ true ⟨.code 3, 8⟩]

theorem protocol_gearUp : Protocol (gearUpActions ()) :=
  meetsAlong_cons (by decide) rfl <|
  meetsAlong_cons (by decide) rfl <|
  meetsAlong_cons (by decide) rfl <|
  meetsAlong_cons (by decide) rfl <|
  meetsAlong_cons (by decide) rfl <|
  meetsAlong_cons (by decide) rfl <|
  meetsAlong_cons (by decide) rfl trivial

theorem lock_protocol_gearUp :
    Protocol (gearUpActions ()) ∧ ∃ s, Lib.run step init (gearUpActions ()) = some s ∧
      s.cache.slot 4096 = .kEntryNotTranslated ∧ s.cache.slot 8192 = .code 3 ∧
      ∀ pc, (s.heldAt pc).length ≤ 1 := by
  rcases lock_protocol (gearUpActions ()) protocol_gearUp with ⟨s, hs, _, hheld, _⟩
  refine ⟨protocol_gearUp, s, hs, ?_, ?_, hheld⟩
  · cases hs
    rfl
  · cases hs
    rfl

theorem isLock_iff_held_gearUp :
    ∃ s, Lib.run step init (gearUpActions ()) = some s ∧ ∀ pc < 2 ^ 48,
      ((s.cache.slot pc).IsLock ↔ s.heldAt pc ≠ []) :=
  isLock_iff_held (gearUpActions ()) protocol_gearUp

end Berberis.TranslationCache
