import Berberis.RuntimePrimitives.TranslationCache

/-!
# The Lock Protocol of the Translation Cache

An entry moves through the phases its slot names, and three structures have to
move with it: the entry's kind, the set of entries being translated, and the
clients' own idea of who holds the lock. `PhaseOk` is the table of what they
have to be in each phase. The invariant is that table for every pc, which is
what makes it easy to keep: below `2 ^ 48` different pcs have different slots,
so an operation on one pc is a change at one pc (`inv_update`), and the loops
are such changes one after another.
-/

namespace Berberis.TranslationCache

open List Lib SplitKey SortedMap

variable {Client : Type}

def translatingAt (c : TranslationCache) (pc : Nat) : List EntryPtr :=
  c.translating.filter (·.pc = pc)

def System.heldAt (s : System Client) (pc : Nat) : List (Holder Client) :=
  s.held.filter (·.ptr.pc = pc)

/-- What the slot of an entry says about its kind, about `translating_` and about the clients. -/
def PhaseOk (pc : Nat) (entry : GuestCodeEntry) (translating : List EntryPtr)
    (held : List (Holder Client)) : HostCodeAddr → Prop
  | .kEntryTranslating =>
    entry.kind = .kUnderProcessing ∧ translating = [⟨pc, entry.stamp⟩] ∧
      ∃ client, held = [⟨client, ⟨pc, entry.stamp⟩, .translation⟩]
  | .kEntryWrapping =>
    entry.kind = .kUnderProcessing ∧ translating = [] ∧ entry.guestSize = 1 ∧
      ∃ client, held = [⟨client, ⟨pc, entry.stamp⟩, .wrapping⟩]
  | .kEntryInvalidating =>
    entry.kind = .kUnderProcessing ∧ translating = [] ∧
      ∃ client mode, held = [⟨client, ⟨pc, entry.stamp⟩, mode⟩]
  | .kEntryNotTranslated => entry.kind ≠ .kUnderProcessing ∧ translating = [] ∧ held = []
  | .code _ => entry.kind ≠ .kUnderProcessing ∧ translating = [] ∧ held = []

/-- The invariant at a pc with an entry. -/
structure EntryOk (s : System Client) (pc : Nat) (entry : GuestCodeEntry) : Prop where
  untagged : pc < 2 ^ 48
  hostCode : entry.hostCode = SplitKey.ofKey pc
  size_pos : 0 < entry.guestSize
  size_lt : entry.guestSize < 2 ^ 32
  size_le : entry.guestSize ≤ s.cache.maxGuestSize
  phase : PhaseOk pc entry (s.cache.translatingAt pc) (s.heldAt pc) (s.cache.slot pc)

/-- The invariant at a pc without an entry. -/
structure AbsentOk (s : System Client) (pc : Nat) : Prop where
  slot : pc < 2 ^ 48 → s.cache.slot pc = .kEntryNotTranslated
  translating : s.cache.translatingAt pc = []
  held : s.heldAt pc = []

def PcOk (s : System Client) (pc : Nat) : Prop :=
  match s.cache.guestEntries.get? pc with
  | some entry => EntryOk s pc entry
  | none => AbsentOk s pc

/-- The invariant of the cache and its clients. -/
structure Inv (s : System Client) : Prop where
  pcs : ∀ pc, PcOk s pc
  max_pos : 0 < s.cache.maxGuestSize

section

variable {s : System Client} {pc : Nat}

theorem Inv.entry {entry : GuestCodeEntry} (hi : Inv s)
    (hget : s.cache.guestEntries.get? pc = some entry) : EntryOk s pc entry := by
  have h := hi.pcs pc
  rwa [PcOk, hget] at h

theorem Inv.absent (hi : Inv s) (hget : s.cache.guestEntries.get? pc = none) : AbsentOk s pc := by
  have h := hi.pcs pc
  rwa [PcOk, hget] at h

theorem pcOk_some {entry : GuestCodeEntry}
    (hget : s.cache.guestEntries.get? pc = some entry) (h : EntryOk s pc entry) : PcOk s pc := by
  rwa [PcOk, hget]

theorem pcOk_none (hget : s.cache.guestEntries.get? pc = none) (h : AbsentOk s pc) : PcOk s pc := by
  rwa [PcOk, hget]

end

/-! ### Changes at one pc -/

/-- Two states agree away from a pc, and no bound has become smaller. -/
structure AgreesElsewhere (s t : System Client) (pc : Nat) : Prop where
  get : ∀ q, q ≠ pc → t.cache.guestEntries.get? q = s.cache.guestEntries.get? q
  slot : ∀ q, q ≠ pc → q < 2 ^ 48 → t.cache.slot q = s.cache.slot q
  translating : ∀ q, q ≠ pc → t.cache.translatingAt q = s.cache.translatingAt q
  held : ∀ q, q ≠ pc → t.heldAt q = s.heldAt q
  max_le : s.cache.maxGuestSize ≤ t.cache.maxGuestSize

theorem pcOk_elsewhere (s t : System Client) (pc q : Nat) (ha : AgreesElsewhere s t pc)
    (hq : q ≠ pc) (h : PcOk s q) : PcOk t q := by
  cases hget : s.cache.guestEntries.get? q with
  | some entry =>
    rw [PcOk, hget] at h
    refine pcOk_some ((ha.get q hq).trans hget) ⟨h.untagged, h.hostCode, h.size_pos,
      h.size_lt, h.size_le.trans ha.max_le, ?_⟩
    rw [ha.translating q hq, ha.held q hq, ha.slot q hq h.untagged]
    exact h.phase
  | none =>
    rw [PcOk, hget] at h
    refine pcOk_none ((ha.get q hq).trans hget) ⟨fun hlt => ?_, ?_, ?_⟩
    · rw [ha.slot q hq hlt]
      exact h.slot hlt
    · rw [ha.translating q hq]
      exact h.translating
    · rw [ha.held q hq]
      exact h.held

theorem inv_update (s t : System Client) (pc : Nat) (hi : Inv s)
    (ha : AgreesElsewhere s t pc) (hpc : PcOk t pc) : Inv t := by
  refine ⟨fun q => ?_, lt_of_lt_of_le hi.max_pos ha.max_le⟩
  by_cases hq : q = pc
  · rw [hq]
    exact hpc
  · exact pcOk_elsewhere s t pc q ha hq (hi.pcs q)

theorem ofKey_injective (p q : Nat) (hp : p < 2 ^ 48) (hq : q < 2 ^ 48)
    (h : ofKey p = ofKey q) : p = q := by
  simp only [ofKey, SplitKey.mk.injEq, kTableSize, kTableBits] at h
  omega

variable {s : System Client} {c : TranslationCache} {pc : Nat} {entry : GuestCodeEntry}
  {client : Client} {h : Holder Client} {translating : List EntryPtr} {held : List (Holder Client)}
  {code : HostCodeAddr}

@[simp]
theorem slot_store_self (c : TranslationCache) (pc : Nat) (code : HostCodeAddr) :
    (c.store (ofKey pc) code).slot pc = code :=
  Function.update_self _ _ _

theorem slot_store_of_ne (pc q : Nat) (code : HostCodeAddr)
    (hp : pc < 2 ^ 48) (hq : q < 2 ^ 48) (hne : q ≠ pc) :
    (c.store (ofKey pc) code).slot q = c.slot q :=
  Function.update_of_ne (fun h => hne (ofKey_injective q pc hq hp h)) _ _

theorem slot_store {pc q : Nat} {key : SplitKey} {code : HostCodeAddr}
    (hkey : key = ofKey pc) (hp : pc < 2 ^ 48) (hq : q < 2 ^ 48) :
    (c.store key code).slot q = if q = pc then code else c.slot q := by
  rw [hkey]
  by_cases hqp : q = pc
  · rw [if_pos hqp, hqp, slot_store_self]
  · rw [if_neg hqp, slot_store_of_ne pc q code hp hq hqp]

theorem deref_eq
    (hget : c.guestEntries.get? pc = some entry) : c.deref ⟨pc, entry.stamp⟩ = .ok entry := by
  simp [deref, hget]

/-! ### Adding and locking -/

theorem addUnsafe_some (key : SplitKey) (piece : HostCodePiece)
    (guestSize : Nat) (kind : Kind) (entry : GuestCodeEntry)
    (hget : c.guestEntries.get? pc = some entry) :
    c.addUnsafe pc key piece guestSize kind = (c, ⟨pc, entry.stamp⟩, false) := by
  rw [addUnsafe, hget]

/-- Adding an entry for a pc without one, when the slot and the clients fit the
    phase it starts in. -/
theorem inv_add (piece : HostCodePiece) (kind : Kind)
    (held : List (Holder Client)) (hi : Inv s) (hpc : pc < 2 ^ 48)
    (hget : s.cache.guestEntries.get? pc = none)
    (hheld : ∀ q, q ≠ pc → held.filter (·.ptr.pc = q) = s.heldAt q)
    (hphase : PhaseOk pc ⟨ofKey pc, piece.size, 1, kind, 0, s.cache.allocated⟩ []
      (held.filter (·.ptr.pc = pc)) piece.code) :
    Inv { s with cache := (s.cache.addUnsafe pc (ofKey pc) piece 1 kind).1, held := held } := by
  have habs := hi.absent hget
  rw [addUnsafe, hget]
  refine inv_update s _ pc hi ⟨fun q hq => ?_, fun q hq hlt => ?_, fun _ _ => rfl, hheld,
    le_rfl⟩ ?_
  · exact (get?_insert _ _ _ _).trans (if_neg hq.symm)
  · exact slot_store_of_ne pc q _ hpc hlt hq
  · refine pcOk_some (get?_insert_self _ _ _) ⟨hpc, rfl, Nat.one_pos,
      Nat.one_lt_two_pow (by decide), hi.max_pos, ?_⟩
    have htr : s.cache.translatingAt pc = [] := habs.translating
    rw [slot_store_self]
    exact htr ▸ hphase

/-- An entry and its slot are written over, and with them what
    `translating_` and the clients know of the pc. -/
theorem inv_replace (entry entry' : GuestCodeEntry)
    (code : HostCodeAddr) (translating published : List EntryPtr) (maxGuestSize : Nat)
    (held : List (Holder Client)) (hi : Inv s) (hget : s.cache.guestEntries.get? pc = some entry)
    (hkey : entry'.hostCode = entry.hostCode)
    (hpos : 0 < entry'.guestSize) (hlt : entry'.guestSize < 2 ^ 32)
    (hle : entry'.guestSize ≤ maxGuestSize) (hmax : s.cache.maxGuestSize ≤ maxGuestSize)
    (htr : ∀ q, q ≠ pc → translating.filter (·.pc = q) = s.cache.translatingAt q)
    (hheld : ∀ q, q ≠ pc → held.filter (·.ptr.pc = q) = s.heldAt q)
    (hphase : PhaseOk pc entry' (translating.filter (·.pc = pc))
      (held.filter (·.ptr.pc = pc)) code) :
    Inv ⟨{ (s.cache.store entry.hostCode code).setEntry pc entry' with
      translating := translating, maxGuestSize := maxGuestSize }, held, published⟩ := by
  have he := hi.entry hget
  rw [he.hostCode]
  refine inv_update s _ pc hi ⟨fun q hq => ?_, fun q hq hlt => ?_, htr, hheld,
    hmax⟩ ?_
  · exact (get?_insert _ _ _ _).trans (if_neg hq.symm)
  · exact slot_store_of_ne pc q _ he.untagged hlt hq
  · refine pcOk_some (get?_insert_self _ _ _) ⟨he.untagged,
      hkey.trans he.hostCode, hpos, hlt, hle, ?_⟩
    have hslot := slot_store_self s.cache pc code
    exact hslot.symm ▸ hphase

/-- An entry is erased and its slot reset, and neither `translating_` nor a
    client knows of the pc any more. -/
theorem inv_erase (translating : List EntryPtr) (hi : Inv s)
    (hget : s.cache.guestEntries.get? pc = some entry)
    (htr : ∀ q, translating.filter (·.pc = q) = if q = pc then [] else s.cache.translatingAt q)
    (hheld : ∀ q, held.filter (·.ptr.pc = q) = if q = pc then [] else s.heldAt q) :
    Inv ⟨{ (s.cache.store entry.hostCode .kEntryNotTranslated).eraseEntry pc with
      translating := translating }, held, published⟩ := by
  have he := hi.entry hget
  rw [he.hostCode]
  refine inv_update s _ pc hi ⟨fun q hq => ?_, fun q hq hlt => ?_,
    fun q hq => (htr q).trans (if_neg hq), fun q hq => (hheld q).trans (if_neg hq),
    le_rfl⟩ ?_
  · exact (get?_erase _ _ _).trans (if_neg hq.symm)
  · exact slot_store_of_ne pc q _ he.untagged hlt hq
  · exact pcOk_none ((get?_erase _ _ _).trans (if_pos rfl))
      ⟨fun _ => slot_store_self _ _ _, (htr pc).trans (if_pos rfl), (hheld pc).trans (if_pos rfl)⟩

section

variable {α : Type} (key : α → Nat) (a : α) (as : List α)

theorem filter_cons_of_ne (q : Nat)
    (hq : q ≠ key a) : (a :: as).filter (key · = q) = as.filter (key · = q) :=
  filter_cons_of_neg (by simpa using hq.symm)

theorem filter_cons_self : (a :: as).filter (key · = key a) = a :: as.filter (key · = key a) :=
  filter_cons_of_pos (by simp)

end

theorem phaseOk_unlocked (hcode : ¬ code.IsLock) : PhaseOk pc entry translating held code ↔
      entry.kind ≠ .kUnderProcessing ∧ translating = [] ∧ held = [] := by
  cases code with
  | kEntryNotTranslated | code => exact Iff.rfl
  | kEntryTranslating => exact absurd (Or.inl rfl) hcode
  | kEntryInvalidating => exact absurd (Or.inr (Or.inl rfl)) hcode
  | kEntryWrapping => exact absurd (Or.inr (Or.inr rfl)) hcode

theorem kind_iff_isLock {s : System Client} {pc : Nat} {entry : GuestCodeEntry}
    (he : EntryOk s pc entry) :
    entry.kind = .kUnderProcessing ↔ (s.cache.slot pc).IsLock := by
  have hphase := he.phase
  by_cases hlock : (s.cache.slot pc).IsLock
  · refine iff_of_true ?_ hlock
    rcases hlock with h | h | h
    all_goals rw [h] at hphase; exact hphase.1
  · exact iff_of_false ((phaseOk_unlocked hlock).mp hphase).1 hlock

theorem lockForTranslationUnsafe_eq (hget : c.guestEntries.get? pc = some entry)
    (hnot : (⟨pc, entry.stamp⟩ : EntryPtr) ∉ c.translating) :
    c.lockForTranslationUnsafe ⟨pc, entry.stamp⟩ = .ok
      { (c.store entry.hostCode .kEntryTranslating).setEntry pc
          { entry with kind := .kUnderProcessing } with
        translating := ⟨pc, entry.stamp⟩ :: c.translating } := by
  rw [lockForTranslationUnsafe, deref_eq hget]
  exact check_bind hnot

theorem lockForTranslationUnsafe_inv (pc : Nat)
    (entry : GuestCodeEntry) (hi : Inv s) (hget : s.cache.guestEntries.get? pc = some entry)
    (hfree : ¬ (s.cache.slot pc).IsLock) :
    ∃ c, s.cache.lockForTranslationUnsafe ⟨pc, entry.stamp⟩ = .ok c ∧
      Inv (s.hand client .translation (c, some ⟨pc, entry.stamp⟩)) := by
  have he := hi.entry hget
  rcases (phaseOk_unlocked hfree).mp he.phase with ⟨_, htr, hheld⟩
  have hnot : (⟨pc, entry.stamp⟩ : EntryPtr) ∉ s.cache.translating := by
    intro hmem
    have hat : (⟨pc, entry.stamp⟩ : EntryPtr) ∈ s.cache.translatingAt pc :=
      mem_filter.mpr ⟨hmem, by simp⟩
    rw [htr] at hat
    exact not_mem_nil hat
  refine ⟨_, lockForTranslationUnsafe_eq hget hnot, ?_⟩
  refine inv_replace entry { entry with kind := .kUnderProcessing } .kEntryTranslating
    (⟨pc, entry.stamp⟩ :: s.cache.translating) s.published s.cache.maxGuestSize _ hi hget rfl
    he.size_pos he.size_lt he.size_le le_rfl ?_ ?_ ⟨rfl, ?_, client, ?_⟩
  · exact fun q hq => filter_cons_of_ne EntryPtr.pc _ _ q hq
  · exact fun q hq => filter_cons_of_ne (fun h : Holder Client => h.ptr.pc) _ _ q hq
  · exact (filter_cons_self EntryPtr.pc _ _).trans (congrArg _ htr)
  · exact (filter_cons_self (fun h : Holder Client => h.ptr.pc) _ _).trans (congrArg _ hheld)

theorem addressMap_hostCode {s : System Client} {pc : Nat} {entry : GuestCodeEntry}
    (he : EntryOk s pc entry) : s.cache.addressMap entry.hostCode = s.cache.slot pc := by
  rw [he.hostCode, slot]

theorem inv_setEntry (counter : Nat)
    (hi : Inv s) (hget : s.cache.guestEntries.get? pc = some entry) :
    Inv { s with cache :=
      s.cache.setEntry pc { entry with invocationCounter := counter } } := by
  have he := hi.entry hget
  have hstore : s.cache.store entry.hostCode (s.cache.slot pc) = s.cache := by
    rw [he.hostCode, store, slot, Function.update_eq_self]
  have h := inv_replace entry { entry with invocationCounter := counter } (s.cache.slot pc)
    s.cache.translating s.published s.cache.maxGuestSize s.held hi hget rfl he.size_pos
    he.size_lt he.size_le le_rfl (fun _ _ => rfl) (fun _ _ => rfl) ?_
  · rw [hstore] at h
    exact h
  · have hphase := he.phase
    revert hphase
    cases s.cache.slot pc <;> exact id

theorem addUnsafe_inv (hi : Inv s) (hpc : pc < 2 ^ 48) :
    ∃ c entry added, s.cache.addUnsafe pc (ofKey pc) ⟨.kEntryNotTranslated, 0⟩ 1
        .kInterpreted = (c, ⟨pc, entry.stamp⟩, added) ∧
      c.guestEntries.get? pc = some entry ∧ Inv { s with cache := c } := by
  cases hget : s.cache.guestEntries.get? pc with
  | some entry => exact ⟨s.cache, entry, false, addUnsafe_some _ _ _ _ _ hget, hget, hi⟩
  | none =>
    have h := inv_add ⟨.kEntryNotTranslated, 0⟩ .kInterpreted s.held hi hpc hget
      (fun _ _ => rfl) ⟨fun h => (by cases h), rfl, (hi.absent hget).held⟩
    rw [addUnsafe, hget] at h ⊢
    exact ⟨_, _, _, rfl, get?_insert_self _ _ _, h⟩

theorem addAndLockForTranslation_inv (pc counterThreshold : Nat) (hi : Inv s) (hpc : pc < 2 ^ 48) :
    ∃ r, s.cache.addAndLockForTranslation pc counterThreshold = .ok r ∧
      Inv (s.hand client .translation r) := by
  rcases addUnsafe_inv hi hpc with ⟨c, entry, added, hadd, hget, hi'⟩
  rw [addAndLockForTranslation, hadd]
  simp only [deref_eq hget, bind, Except.bind,
    show c.addressMap entry.hostCode = c.slot pc from addressMap_hostCode (hi'.entry hget)]
  split_ifs with hslot hcount
  · exact ⟨_, rfl, hi'⟩
  · exact ⟨_, rfl, inv_setEntry _ hi' hget⟩
  · have hfree : ¬ (c.slot pc).IsLock := by
      rw [not_not.mp hslot]
      decide
    rcases lockForTranslationUnsafe_inv pc entry hi' hget hfree with ⟨d, hd, hinv⟩
    rw [show c.lockForTranslationUnsafe ⟨pc, entry.stamp⟩ = .ok d from hd]
    exact ⟨_, rfl, hinv⟩

theorem lockForGearUpTranslation_inv (pc : Nat) (hi : Inv s) :
    ∃ r, s.cache.lockForGearUpTranslation pc = .ok r ∧ Inv (s.hand client .translation r) := by
  rw [lockForGearUpTranslation]
  cases hget : s.cache.guestEntries.get? pc with
  | none => exact ⟨_, rfl, hi⟩
  | some entry =>
    simp only [bind, Except.bind]
    split_ifs with hkind
    · exact ⟨_, rfl, hi⟩
    · have hfree : ¬ (s.cache.slot pc).IsLock := by
        rw [← kind_iff_isLock (hi.entry hget), not_not.mp hkind]
        decide
      rcases lockForTranslationUnsafe_inv pc entry hi hget hfree with ⟨c, hc, hinv⟩
      rw [hc]
      exact ⟨_, rfl, hinv⟩

theorem addAndLockForWrapping_inv (pc : Nat) (hi : Inv s) (hpc : pc < 2 ^ 48) :
    Inv (s.hand client .wrapping (s.cache.addAndLockForWrapping pc)) := by
  cases hget : s.cache.guestEntries.get? pc with
  | some entry =>
    rw [addAndLockForWrapping, addUnsafe_some _ _ _ _ _ hget]
    exact hi
  | none =>
    have h := inv_add ⟨.kEntryWrapping, 0⟩ .kUnderProcessing
      (⟨client, ⟨pc, s.cache.allocated⟩, .wrapping⟩ :: s.held) hi hpc hget
      (fun q hq => filter_cons_of_ne (fun h : Holder Client => h.ptr.pc) _ _ q hq)
      ⟨rfl, rfl, rfl, client, (filter_cons_self (fun h : Holder Client => h.ptr.pc) _ _).trans
          (congrArg _ (hi.absent hget).held)⟩
    rw [addUnsafe, hget] at h
    rw [addAndLockForWrapping, addUnsafe, hget]
    exact h

/-! ### Unlocking -/

theorem holder_phase (hi : Inv s) (hmem : h ∈ s.held) :
    ∃ entry, s.cache.guestEntries.get? h.ptr.pc = some entry ∧
      h.ptr = ⟨h.ptr.pc, entry.stamp⟩ ∧ s.heldAt h.ptr.pc = [h] ∧ entry.kind = .kUnderProcessing ∧
      (h.mode = .translation ∧ s.cache.slot h.ptr.pc = .kEntryTranslating ∨
        h.mode = .wrapping ∧ s.cache.slot h.ptr.pc = .kEntryWrapping ∧ entry.guestSize = 1 ∨
        s.cache.slot h.ptr.pc = .kEntryInvalidating) := by
  have hat : h ∈ s.heldAt h.ptr.pc := mem_filter.mpr ⟨hmem, by simp⟩
  have hone : ∀ x, s.heldAt h.ptr.pc = [x] → h = x := fun x hx => mem_singleton.mp (hx ▸ hat)
  cases hget : s.cache.guestEntries.get? h.ptr.pc with
  | none =>
    rw [(hi.absent hget).held] at hat
    exact absurd hat not_mem_nil
  | some entry =>
    refine ⟨entry, rfl, ?_⟩
    have hphase := (hi.entry hget).phase
    cases hslot : s.cache.slot h.ptr.pc with
    | kEntryTranslating =>
      rw [hslot] at hphase
      rcases hphase with ⟨hkind, _, client, hheld⟩
      have heq := hone _ hheld
      exact ⟨congrArg Holder.ptr heq, by rw [hheld, ← heq], hkind,
        Or.inl ⟨congrArg Holder.mode heq, rfl⟩⟩
    | kEntryWrapping =>
      rw [hslot] at hphase
      rcases hphase with ⟨hkind, _, hsize, client, hheld⟩
      have heq := hone _ hheld
      exact ⟨congrArg Holder.ptr heq, by rw [hheld, ← heq], hkind,
        Or.inr (Or.inl ⟨congrArg Holder.mode heq, rfl, hsize⟩)⟩
    | kEntryInvalidating =>
      rw [hslot] at hphase
      rcases hphase with ⟨hkind, _, client, mode, hheld⟩
      have heq := hone _ hheld
      exact ⟨congrArg Holder.ptr heq, by rw [hheld, ← heq], hkind, Or.inr (Or.inr rfl)⟩
    | kEntryNotTranslated | code =>
      rw [hslot] at hphase
      rw [hphase.2.2] at hat
      exact absurd hat not_mem_nil

variable [DecidableEq Client]

theorem heldAt_erase (q : Nat) (halone : s.heldAt h.ptr.pc = [h]) :
    (s.held.erase h).filter (·.ptr.pc = q) = if q = h.ptr.pc then [] else s.heldAt q := by
  rw [← erase_filter]
  by_cases hq : q = h.ptr.pc
  · have hat : s.held.filter (·.ptr.pc = h.ptr.pc) = [h] := halone
    rw [if_pos hq, hq, hat, erase_cons_head]
  · rw [if_neg hq]
    refine erase_of_not_mem (fun hmem => hq ?_)
    exact (of_decide_eq_true (mem_filter.mp hmem).2).symm

theorem unlock_invalidated_inv (entry : GuestCodeEntry)
    (hi : Inv s) (hget : s.cache.guestEntries.get? h.ptr.pc = some entry)
    (halone : s.heldAt h.ptr.pc = [h]) (hslot : s.cache.slot h.ptr.pc = .kEntryInvalidating) :
    Inv (s.unlock h ((s.cache.store entry.hostCode .kEntryNotTranslated).eraseEntry h.ptr.pc)) := by
  have hphase := (hi.entry hget).phase
  rw [hslot] at hphase
  refine inv_erase s.cache.translating hi hget (fun q => ?_) fun q => heldAt_erase q halone
  by_cases hq : q = h.ptr.pc
  · rw [if_pos hq, hq]
    exact hphase.2.1
  · rw [if_neg hq]
    rfl

theorem unlock_published_inv
    (entry entry' : GuestCodeEntry) (code : HostCodeAddr) (translating : List EntryPtr)
    (maxGuestSize : Nat) (hi : Inv s) (hget : s.cache.guestEntries.get? h.ptr.pc = some entry)
    (halone : s.heldAt h.ptr.pc = [h])
    (hkey : entry'.hostCode = entry.hostCode)
    (hpos : 0 < entry'.guestSize) (hlt : entry'.guestSize < 2 ^ 32)
    (hle : entry'.guestSize ≤ maxGuestSize) (hmax : s.cache.maxGuestSize ≤ maxGuestSize)
    (htr : ∀ q, translating.filter (·.pc = q) =
      if q = h.ptr.pc then [] else s.cache.translatingAt q)
    (hkind : entry'.kind ≠ .kUnderProcessing) (hcode : ¬ code.IsLock) :
    Inv (s.unlock h { (s.cache.store entry.hostCode code).setEntry h.ptr.pc entry' with
      translating := translating, maxGuestSize := maxGuestSize }) := by
  exact inv_replace entry entry' code translating _ maxGuestSize (s.held.erase h) hi hget hkey
    hpos hlt hle hmax (fun q hq => (htr q).trans (if_neg hq))
    (fun q hq => (heldAt_erase q halone).trans (if_neg hq))
    ((phaseOk_unlocked hcode).mpr ⟨hkind, (htr h.ptr.pc).trans (if_pos rfl),
      (heldAt_erase h.ptr.pc halone).trans (if_pos rfl)⟩)

theorem setTranslatedAndUnlock_inv (ptr : EntryPtr)
    (guestSize : Nat) (kind : Kind) (piece : HostCodePiece) (hi : Inv s)
    (hleg : Legal s (.setTranslatedAndUnlock client ptr guestSize kind piece)) :
    ∃ c, s.cache.setTranslatedAndUnlock ptr.pc ptr guestSize kind piece = .ok c ∧
      Inv (s.unlock ⟨client, ptr, .translation⟩ c) := by
  rcases hleg with ⟨hmem, hpos, hlt, hk1, hk2, hk3, hcode⟩
  rcases holder_phase hi hmem with ⟨entry, hget, hptr, halone, hkind, hslot⟩
  have he := hi.entry hget
  have hphase := he.phase
  dsimp only at hget hptr halone hslot hphase
  have hder : s.cache.deref ptr = .ok entry := by
    rw [hptr]
    exact deref_eq hget
  rw [setTranslatedAndUnlock, check_bind hk1, check_bind hk2, check_bind hk3, hder]
  simp only [bind, Except.bind, addressMap_hostCode he]
  rcases hslot with ⟨_, hslot⟩ | ⟨hmode, _⟩ | hslot
  · rw [hslot] at hphase ⊢
    rcases hphase with ⟨_, htr, _⟩
    have hat : s.cache.translating.filter (·.pc = ptr.pc) = [ptr] := htr.trans (by rw [← hptr])
    have hin : ptr ∈ s.cache.translating :=
      (mem_filter.mp (hat ▸ mem_singleton_self ptr)).1
    simp only [reduceCtorEq, if_false, check, hkind, if_true, hpos, setEntry_translating,
      store_translating, hin]
    refine ⟨_, rfl, unlock_published_inv entry _ piece.code
      (s.cache.translating.erase ptr) (max s.cache.maxGuestSize guestSize) hi hget halone rfl
      hpos hlt (le_max_right _ _) (le_max_left _ _) (fun q => ?_) hk1 hcode⟩
    rw [← erase_filter]
    by_cases hq : q = ptr.pc
    · rw [if_pos hq, hq, hat, erase_cons_head]
    · rw [if_neg hq]
      refine erase_of_not_mem (fun hmem => hq ?_)
      exact (of_decide_eq_true (mem_filter.mp hmem).2).symm
  · cases hmode
  · rw [hslot, if_pos rfl]
    exact ⟨_, rfl, unlock_invalidated_inv entry hi hget halone hslot⟩

theorem setWrappedAndUnlock_inv (ptr : EntryPtr)
    (isHostFunc : Bool) (piece : HostCodePiece) (hi : Inv s)
    (hleg : Legal s (.setWrappedAndUnlock client ptr isHostFunc piece)) :
    ∃ c, s.cache.setWrappedAndUnlock ptr.pc ptr isHostFunc piece = .ok c ∧
      Inv (s.unlock ⟨client, ptr, .wrapping⟩ c) := by
  rcases hleg with ⟨hmem, hcode⟩
  rcases holder_phase hi hmem with ⟨entry, hget, hptr, halone, hkind, hslot⟩
  have he := hi.entry hget
  have hphase := he.phase
  dsimp only at hget hptr halone hslot hphase
  have hder : s.cache.deref ptr = .ok entry := by
    rw [hptr]
    exact deref_eq hget
  rw [setWrappedAndUnlock, hder]
  simp only [bind, Except.bind, addressMap_hostCode he]
  rcases hslot with ⟨hmode, _⟩ | ⟨_, hslot, hsize⟩ | hslot
  · cases hmode
  · rw [hslot] at hphase ⊢
    rcases hphase with ⟨_, htr, _⟩
    simp only [reduceCtorEq, if_false, check, hkind, if_true, hsize]
    refine ⟨_, rfl, unlock_published_inv entry _ piece.code
      s.cache.translating s.cache.maxGuestSize hi hget halone rfl ?_ ?_ ?_ le_rfl
      (fun q => ?_) ?_ hcode⟩
    · exact Nat.one_pos
    · exact Nat.one_lt_two_pow (by decide)
    · exact hi.max_pos
    · by_cases hq : q = ptr.pc
      · rw [if_pos hq, hq]
        exact htr
      · rw [if_neg hq]
        rfl
    · cases isHostFunc <;> exact fun h => by cases h
  · rw [hslot, if_pos rfl]
    exact ⟨_, rfl, unlock_invalidated_inv entry hi hget halone hslot⟩

end Berberis.TranslationCache
