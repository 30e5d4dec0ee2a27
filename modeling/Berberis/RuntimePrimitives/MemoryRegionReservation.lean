import Berberis.Lib.Run

/-!
# Memory Region Reservation

The emulation of the exclusive monitor: `ReservationLoad` takes ownership of
an entry of `g_owners` and loads the region, `ReservationExchange` stores to
it if the CPU still owns the entry. Entries are shared by all addresses that
hash to them and are updated without a lock by any number of CPUs.

## Theorems

* `run_inv`: Every run from the initial state keeps the invariant.
* `reservationExchange_exclusive`: A successful exclusive store excludes every
  other one since the CPU last took the entry.
-/

namespace Berberis.MemoryRegionReservation

open List Function

variable {Cpu Word : Type}

/-- What an entry of `g_owners` holds: `nullptr`, `kLockedOwner`, or the CPU
    that owns the reservation. -/
inductive Owner (Cpu : Type) where
  | null
  | locked
  | cpu (c : Cpu)
  deriving DecidableEq

def kHashSize : Nat := 4096

/-- The index of the entry an address hashes to. `size` is the size of a `Reservation` in bytes. -/
def getEntry (size addr : Nat) : Nat := addr / size % kHashSize

/-- Where a CPU is inside `ReservationLoad` or `ReservationExchange`, with
    the arguments and the values it has read so far. -/
inductive Local (Cpu Word : Type) where
  | idle
  | stealing (addr : Nat) (prev : Owner Cpu)
  | loading (addr : Nat)
  | locking (addr : Nat) (expected value : Word)
  | exchanging (addr : Nat) (expected value : Word)
  | unlocking (addr : Nat) (written : Bool)
  deriving DecidableEq

/-- The shared entries, the guest memory by regions, and the CPUs. -/
structure System (Cpu Word : Type) where
  owners : Nat → Owner Cpu
  memory : Nat → Word
  cpus : Cpu → Local Cpu Word

/-- The atomic actions. The first of `ReservationLoad` is the load of the entry in `SetOwner`; a
    call of `ReservationExchange` is an action of its own, which fixes its arguments. -/
inductive Action (Cpu Word : Type) where
  | setOwnerLoad (c : Cpu) (addr : Nat)
  | setOwnerExchange (c : Cpu)
  | regionLoad (c : Cpu)
  | reservationExchange (c : Cpu) (addr : Nat) (expected value : Word)
  | tryLock (c : Cpu)
  | memoryExchange (c : Cpu)
  | unlock (c : Cpu)
  | store (addr : Nat) (value : Word)
  deriving DecidableEq

/-- What an action lets the outside see. -/
inductive Event (Cpu Word : Type) where
  /-- A `SetOwner` of the CPU succeeded on the entry. -/
  | owned (c : Cpu) (entry : Nat)
  /-- The load of the region read `word`. -/
  | loaded (c : Cpu) (addr : Nat) (word : Word)
  /-- The compare-exchange of the region found `word`. -/
  | exchanged (c : Cpu) (addr : Nat) (expected word : Word)
  /-- A `ReservationExchange` returned `written`. -/
  | returned (c : Cpu) (addr : Nat) (written : Bool)
  | silent
  deriving DecidableEq

section Steps

variable [DecidableEq Cpu] [DecidableEq Word]

/-- One action, or `none` when the CPU is not at that point. -/
def step (size : Nat) (s : System Cpu Word) : Action Cpu Word → Option (System Cpu Word)
  | .setOwnerLoad c addr => match s.cpus c with
    | .idle =>
      let prev := s.owners (getEntry size addr)
      -- A locked entry is not stolen, and the region is loaded all the same.
      let next := if prev = .locked then .loading addr else .stealing addr prev
      some { s with cpus := Function.update s.cpus c next }
    | _ => none
  | .setOwnerExchange c => match s.cpus c with
    | .stealing addr prev =>
      let entry := getEntry size addr
      some { s with
        owners :=
          if s.owners entry = prev then Function.update s.owners entry (.cpu c) else s.owners
        cpus := Function.update s.cpus c (.loading addr) }
    | _ => none
  | .regionLoad c => match s.cpus c with
    | .loading _ => some { s with cpus := Function.update s.cpus c .idle }
    | _ => none
  | .reservationExchange c addr expected value => match s.cpus c with
    | .idle => some { s with cpus := Function.update s.cpus c (.locking addr expected value) }
    | _ => none
  | .tryLock c => match s.cpus c with
    | .locking addr expected value =>
      let entry := getEntry size addr
      if s.owners entry = .cpu c then
        some { s with
          owners := Function.update s.owners entry .locked
          cpus := Function.update s.cpus c (.exchanging addr expected value) }
      else some { s with cpus := Function.update s.cpus c .idle }
    | _ => none
  | .memoryExchange c => match s.cpus c with
    | .exchanging addr expected value =>
      if s.memory addr = expected then
        some { s with
          memory := Function.update s.memory addr value
          cpus := Function.update s.cpus c (.unlocking addr true) }
      else some { s with cpus := Function.update s.cpus c (.unlocking addr false) }
    | _ => none
  | .unlock c => match s.cpus c with
    | .unlocking addr _ =>
      some { s with
        owners := Function.update s.owners (getEntry size addr) .null
        cpus := Function.update s.cpus c .idle }
    | _ => none
  | .store addr value => some { s with memory := Function.update s.memory addr value }

def event (size : Nat) (s : System Cpu Word) : Action Cpu Word → Event Cpu Word
  | .setOwnerExchange c => match s.cpus c with
    | .stealing addr prev =>
      if s.owners (getEntry size addr) = prev then .owned c (getEntry size addr) else .silent
    | _ => .silent
  | .regionLoad c => match s.cpus c with
    | .loading addr => .loaded c addr (s.memory addr)
    | _ => .silent
  | .tryLock c => match s.cpus c with
    | .locking addr _ _ =>
      if s.owners (getEntry size addr) = .cpu c then .silent else .returned c addr false
    | _ => .silent
  | .memoryExchange c => match s.cpus c with
    | .exchanging addr expected _ => .exchanged c addr expected (s.memory addr)
    | _ => .silent
  | .unlock c => match s.cpus c with
    | .unlocking addr written => .returned c addr written
    | _ => .silent
  | _ => .silent

def record (size : Nat) (x : System Cpu Word × List (Event Cpu Word))
    (a : Action Cpu Word) : Option (System Cpu Word × List (Event Cpu Word)) :=
  (step size x.1 a).map fun s => (s, event size x.1 a :: x.2)

end Steps

def init (memory : Nat → Word) : System Cpu Word :=
  { owners := fun _ => .null, memory := memory, cpus := fun _ => .idle }

/-- The points between a successful `TryLock` of the entry and its `Unlock`. -/
def Local.Holds (size : Nat) (l : Local Cpu Word) (entry : Nat) : Prop :=
  match l with
  | .exchanging addr _ _ => getEntry size addr = entry
  | .unlocking addr _ => getEntry size addr = entry
  | _ => False

/-- In the history `h`, `since` is what happened after the CPU last took the entry, and no other CPU
    has completed a successful exclusive store on an address of the entry in it. -/
def UndisturbedSince (size : Nat) (c : Cpu) (entry : Nat) (h since : List (Event Cpu Word)) :
    Prop :=
  (∃ before, h = since ++ .owned c entry :: before) ∧ .owned c entry ∉ since ∧
    ∀ d addr, d ≠ c → getEntry size addr = entry → .returned d addr true ∉ since

/-- The CPU took the entry and was undisturbed since, and the last thing its
    compare-exchange of a region did was to find the expected word. -/
def Stored (size : Nat) (c : Cpu) (addr : Nat) (h : List (Event Cpu Word)) : Prop :=
  ∃ later earlier word,
    UndisturbedSince size c (getEntry size addr) h
      (later ++ .exchanged c addr word word :: earlier) ∧
    ∀ a expected found, .exchanged c a expected found ∉ later

/-- The invariant of the reachable states and their histories. -/
structure Inv (size : Nat) (s : System Cpu Word) (h : List (Event Cpu Word)) : Prop where
  locked_iff : ∀ entry, s.owners entry = .locked ↔ ∃ c, (s.cpus c).Holds size entry
  unique : ∀ c d entry, (s.cpus c).Holds size entry → (s.cpus d).Holds size entry → c = d
  stealing : ∀ c addr prev, s.cpus c = .stealing addr prev → prev ≠ .locked
  owner : ∀ c entry, s.owners entry = .cpu c → ∃ since, UndisturbedSince size c entry h since
  holder : ∀ c entry, (s.cpus c).Holds size entry →
    ∃ since, UndisturbedSince size c entry h since
  written : ∀ c addr, s.cpus c = .unlocking addr true → Stored size c addr h
  returned : ∀ c addr post pre, h = post ++ .returned c addr true :: pre → Stored size c addr pre

def Quiet (size : Nat) (c : Cpu) (entry : Nat) (ev : Event Cpu Word) : Prop :=
  ev ≠ .owned c entry ∧ ∀ d addr, d ≠ c → getEntry size addr = entry → ev ≠ .returned d addr true

variable {size : Nat} {s : System Cpu Word} {h : List (Event Cpu Word)} (ev : Event Cpu Word)
  (c : Cpu) (entry : Nat)

theorem undisturbedSince_cons (ev : Event Cpu Word)
    (h since : List (Event Cpu Word)) (hq : Quiet size c entry ev)
    (hu : UndisturbedSince size c entry h since) :
    UndisturbedSince size c entry (ev :: h) (ev :: since) := by
  rcases hu with ⟨⟨before, hb⟩, hown, hret⟩
  refine ⟨⟨before, by rw [hb, cons_append]⟩, ?_, ?_⟩
  · exact not_mem_cons_of_ne_of_not_mem hq.1.symm hown
  · intro d addr hd ha
    exact not_mem_cons_of_ne_of_not_mem (hq.2 d addr hd ha).symm (hret d addr hd ha)

theorem undisturbedSince_owned (h : List (Event Cpu Word)) :
    UndisturbedSince size c entry (.owned c entry :: h) [] :=
  ⟨⟨h, rfl⟩, not_mem_nil, fun _ _ _ _ => not_mem_nil⟩

theorem stored_cons (addr : Nat) (ev : Event Cpu Word)
    (h : List (Event Cpu Word)) (hq : Quiet size c (getEntry size addr) ev)
    (hev : ∀ a expected found, ev ≠ .exchanged c a expected found)
    (hs : Stored size c addr h) : Stored size c addr (ev :: h) := by
  rcases hs with ⟨later, earlier, word, hu, hlast⟩
  refine ⟨ev :: later, earlier, word, ?_, ?_⟩
  · exact undisturbedSince_cons c _ ev h _ hq hu
  · intro a expected found hmem
    rcases mem_cons.mp hmem with heq | hmem
    · exact hev a expected found heq.symm
    · exact hlast a expected found hmem

theorem returned_cons (h : List (Event Cpu Word))
    (hold : ∀ c addr post pre, h = post ++ .returned c addr true :: pre → Stored size c addr pre)
    (hev : ∀ c addr, ev = .returned c addr true → Stored size c addr h) :
    ∀ c addr post pre, ev :: h = post ++ .returned c addr true :: pre → Stored size c addr pre := by
  intro c addr post pre heq
  cases post with
  | nil =>
    rw [nil_append, List.cons.injEq] at heq
    rw [← heq.2]
    exact hev c addr heq.1
  | cons p ps =>
    rw [cons_append, List.cons.injEq] at heq
    exact hold c addr ps pre heq.2

/-- An event that tells nothing to the owner and to the holder of an entry,
    and is backed by a store if it is a completed one, keeps the invariant. -/
theorem inv_cons (hi : Inv size s h)
    (hown : ∀ c entry, s.owners entry = .cpu c → Quiet size c entry ev)
    (hhold : ∀ c entry, (s.cpus c).Holds size entry → Quiet size c entry ev)
    (hexch : ∀ c addr, s.cpus c = .unlocking addr true →
      ∀ a expected found, ev ≠ .exchanged c a expected found)
    (hret : ∀ c addr, ev = .returned c addr true → Stored size c addr h) :
    Inv size s (ev :: h) := by
  refine ⟨hi.locked_iff, hi.unique, hi.stealing, ?_, ?_, ?_, ?_⟩
  · intro c entry hc
    rcases hi.owner c entry hc with ⟨since, hs⟩
    exact ⟨ev :: since, undisturbedSince_cons c entry ev h since (hown c entry hc) hs⟩
  · intro c entry hc
    rcases hi.holder c entry hc with ⟨since, hs⟩
    exact ⟨ev :: since, undisturbedSince_cons c entry ev h since (hhold c entry hc) hs⟩
  · intro c addr hc
    have hholds : (s.cpus c).Holds size (getEntry size addr) := by rw [hc]; rfl
    exact stored_cons c addr ev h (hhold c _ hholds) (hexch c addr hc)
      (hi.written c addr hc)
  · exact returned_cons ev h hi.returned hret

theorem inv_cons_of_quiet (hi : Inv size s h) (hown : ∀ c entry, ev ≠ .owned c entry)
    (hexch : ∀ c addr, s.cpus c = .unlocking addr true →
      ∀ a expected found, ev ≠ .exchanged c a expected found)
    (hret : ∀ c addr, ev ≠ .returned c addr true) : Inv size s (ev :: h) := by
  have hq : ∀ c entry, Quiet size c entry ev :=
    fun c entry => ⟨hown c entry, fun d addr _ _ => hret d addr⟩
  exact inv_cons ev hi (fun c entry _ => hq c entry) (fun c entry _ => hq c entry)
    hexch (fun c addr hev => absurd hev (hret c addr))

theorem inv_memory
    (memory : Nat → Word) (hi : Inv size s h) : Inv size { s with memory := memory } h :=
  ⟨hi.locked_iff, hi.unique, hi.stealing, hi.owner, hi.holder, hi.written, hi.returned⟩

theorem of_update_eq {α β : Type} [DecidableEq α] {f : α → β} {a b : α} {x y : β}
    (h : update f a x b = y) (hne : x ≠ y) : f b = y := by
  by_cases hb : b = a
  · rw [hb, update_self] at h
    exact absurd h hne
  · rwa [update_of_ne hb] at h

theorem inv_owner
    (o : Owner Cpu) (hi : Inv size s h) (hold : s.owners entry ≠ .locked) (hnew : o ≠ .locked)
    (ho : ∀ c, o = .cpu c → ∃ since, UndisturbedSince size c entry h since) :
    Inv size { s with owners := update s.owners entry o } h := by
  refine ⟨?_, hi.unique, hi.stealing, ?_, hi.holder, hi.written, hi.returned⟩
  · intro e
    rw [← hi.locked_iff e]
    dsimp only
    by_cases he : e = entry
    · rw [he, update_self]
      exact iff_of_false hnew hold
    · rw [update_of_ne he]
  · intro c e hc
    dsimp only at hc
    by_cases he : e = entry
    · rw [he, update_self] at hc
      rw [he]
      exact ho c hc
    · rw [update_of_ne he] at hc
      exact hi.owner c e hc

theorem inv_own (hi : Inv size s h) (hold : s.owners entry ≠ .locked) :
    Inv size { s with owners := update s.owners entry (.cpu c) }
      (.owned c entry :: h) := by
  -- The old owner goes, the event is recorded, the new owner comes.
  have hnull := inv_owner entry .null hi hold nofun nofun
  have hcons := inv_cons (.owned c entry) hnull
    (fun d e hd => ⟨fun hl => ?_, fun _ _ _ _ hl => by cases hl⟩)
    (fun d e hd => ⟨fun hl => ?_, fun _ _ _ _ hl => by cases hl⟩) nofun nofun
  · have hown := inv_owner entry (.cpu c) hcons
      (fun hl => by simp only [update_self, reduceCtorEq] at hl) nofun
      (fun d hd => by cases hd; exact ⟨[], undisturbedSince_owned c entry h⟩)
    simpa only [update_idem] using hown
  · cases hl
    simp at hd
  · cases hl
    exact hold ((hi.locked_iff entry).mpr ⟨c, hd⟩)

section Cpus

variable [DecidableEq Cpu]

variable {size : Nat} {s t : System Cpu Word} {h : List (Event Cpu Word)} {c : Cpu}
  (memory : Nat → Word)

section

variable {s : System Cpu Word} {h : List (Event Cpu Word)} (c : Cpu)

theorem inv_cpu (l : Local Cpu Word) (hi : Inv size s h)
    (hsame : ∀ entry, l.Holds size entry ↔ (s.cpus c).Holds size entry)
    (hsteal : ∀ addr prev, l = .stealing addr prev → prev ≠ .locked)
    (hunl : ∀ addr, l = .unlocking addr true → Stored size c addr h) :
    Inv size { s with cpus := update s.cpus c l } h := by
  have hholds : ∀ d entry, (update s.cpus c l d).Holds size entry ↔
      (s.cpus d).Holds size entry := by
    intro d entry
    by_cases hd : d = c
    · rw [hd, update_self]
      exact hsame entry
    · rw [update_of_ne hd]
  refine ⟨?_, ?_, ?_, hi.owner, ?_, ?_, hi.returned⟩
  · intro entry
    simp only [hholds]
    exact hi.locked_iff entry
  · intro d e entry hd he
    exact hi.unique d e entry ((hholds d entry).mp hd) ((hholds e entry).mp he)
  · intro d addr prev hd
    dsimp only at hd
    by_cases hdc : d = c
    · rw [hdc, update_self] at hd
      exact hsteal addr prev hd
    · rw [update_of_ne hdc] at hd
      exact hi.stealing d addr prev hd
  · intro d entry hd
    exact hi.holder d entry ((hholds d entry).mp hd)
  · intro d addr hd
    dsimp only at hd
    by_cases hdc : d = c
    · rw [hdc, update_self] at hd
      rw [hdc]
      exact hunl addr hd
    · rw [update_of_ne hdc] at hd
      exact hi.written d addr hd

theorem inv_lock (addr : Nat) (expected value : Word) (hi : Inv size s h)
    (hc : s.cpus c = .locking addr expected value) (ho : s.owners (getEntry size addr) = .cpu c) :
    Inv size { s with
      owners := update s.owners (getEntry size addr) .locked
      cpus := update s.cpus c (.exchanging addr expected value) } h := by
  have hfree : ∀ d, ¬ (s.cpus d).Holds size (getEntry size addr) := by
    intro d hd
    have hlock := (hi.locked_iff (getEntry size addr)).mpr ⟨d, hd⟩
    rw [ho] at hlock
    cases hlock
  have hholds : ∀ d entry, (update s.cpus c (.exchanging addr expected value) d).Holds size entry ↔
        (s.cpus d).Holds size entry ∨ (d = c ∧ entry = getEntry size addr) := by
    intro d entry
    by_cases hd : d = c
    · rw [hd, update_self, hc]
      simp [Local.Holds, eq_comm]
    · rw [update_of_ne hd]
      simp [hd]
  refine ⟨?_, ?_, ?_, ?_, ?_, ?_, hi.returned⟩
  · intro entry
    simp only [hholds]
    by_cases he : entry = getEntry size addr
    · rw [he, update_self]
      exact iff_of_true rfl ⟨c, Or.inr ⟨rfl, rfl⟩⟩
    · rw [update_of_ne he, hi.locked_iff entry]
      simp [he]
  · intro d e entry hd he
    rcases (hholds d entry).mp hd with hd | ⟨hd, hde⟩
    · rcases (hholds e entry).mp he with he | ⟨_, hee⟩
      · exact hi.unique d e entry hd he
      · exact absurd (hee ▸ hd) (hfree d)
    · rcases (hholds e entry).mp he with he | ⟨he, _⟩
      · exact absurd (hde ▸ he) (hfree e)
      · rw [hd, he]
  · intro d a prev hd
    exact hi.stealing d a prev (of_update_eq hd nofun)
  · intro d entry hd
    exact hi.owner d entry (of_update_eq hd nofun)
  · intro d entry hd
    rcases (hholds d entry).mp hd with hd | ⟨hd, he⟩
    · exact hi.holder d entry hd
    · rw [hd, he]
      exact hi.owner c _ ho
  · intro d a hd
    exact hi.written d a (of_update_eq hd nofun)

theorem inv_unlock
    (addr : Nat) (written : Bool) (hi : Inv size s h) (hc : s.cpus c = .unlocking addr written) :
    Inv size { s with
      owners := update s.owners (getEntry size addr) .null
      cpus := update s.cpus c .idle } h := by
  have hmine : (s.cpus c).Holds size (getEntry size addr) := by rw [hc]; rfl
  -- Nobody else holds the entry, so what is left of the holders avoids it.
  have hholds : ∀ d entry, (update s.cpus c .idle d).Holds size entry ↔
      (s.cpus d).Holds size entry ∧ entry ≠ getEntry size addr := by
    intro d entry
    by_cases hd : d = c
    · rw [hd, update_self, hc]
      refine iff_of_false id ?_
      rintro ⟨he, hne⟩
      exact hne (Eq.symm he)
    · rw [update_of_ne hd]
      refine ⟨fun hholds => ⟨hholds, ?_⟩, fun hholds => hholds.1⟩
      rintro rfl
      exact hd (hi.unique d c _ hholds hmine)
  refine ⟨?_, ?_, ?_, ?_, ?_, ?_, hi.returned⟩
  · intro entry
    simp only [hholds]
    by_cases he : entry = getEntry size addr
    · rw [he, update_self]
      refine iff_of_false nofun ?_
      rintro ⟨d, _, hne⟩
      exact hne rfl
    · rw [update_of_ne he, hi.locked_iff entry]
      simp [he]
  · intro d e entry hd he
    exact hi.unique d e entry ((hholds d entry).mp hd).1 ((hholds e entry).mp he).1
  · intro d a prev hd
    exact hi.stealing d a prev (of_update_eq hd nofun)
  · intro d entry hd
    exact hi.owner d entry (of_update_eq hd nofun)
  · intro d entry hd
    exact hi.holder d entry ((hholds d entry).mp hd).1
  · intro d a hd
    exact hi.written d a (of_update_eq hd nofun)

theorem inv_cpu_outside
    (l : Local Cpu Word) (hi : Inv size s h) (hold : ∀ entry, ¬ (s.cpus c).Holds size entry)
    (hnew : ∀ entry, ¬ l.Holds size entry)
    (hsteal : ∀ addr prev, l = .stealing addr prev → prev ≠ .locked) :
    Inv size { s with cpus := update s.cpus c l } h := by
  refine inv_cpu c l hi (fun entry => iff_of_false (hnew entry) (hold entry)) hsteal ?_
  intro addr hl
  exact absurd (by rw [hl]; rfl) (hnew (getEntry size addr))

end

variable [DecidableEq Word]

theorem setOwnerLoad_inv (addr : Nat) (hi : Inv size s h)
    (hs : step size s (.setOwnerLoad c addr) = some t) : Inv size t h := by
  simp only [step] at hs
  split at hs
  · next hc =>
    cases hs
    refine inv_cpu_outside c _ hi (fun _ => by rw [hc]; exact id) (fun _ => ?_) ?_
    · split <;> exact id
    · intro a prev hl
      split at hl
      · cases hl
      · next hne =>
        cases hl
        exact hne
  · cases hs

theorem setOwnerExchange_inv (hi : Inv size s h) (hs : step size s (.setOwnerExchange c) = some t) :
    Inv size t (event size s (.setOwnerExchange c) :: h) := by
  simp only [step] at hs
  split at hs
  · next addr prev hc =>
    cases hs
    simp only [event, hc]
    have hmove := fun s' h' (hi' : Inv size s' h') (hc' : s'.cpus c = s.cpus c) =>
      inv_cpu_outside c (.loading addr) hi' (fun _ => by rw [hc', hc]; exact id)
        (fun _ => id) nofun
    by_cases ho : s.owners (getEntry size addr) = prev
    · rw [if_pos ho, if_pos ho]
      have hown := inv_own c (getEntry size addr) hi
        (by rw [ho]; exact hi.stealing c addr prev hc)
      exact hmove _ _ hown rfl
    · rw [if_neg ho, if_neg ho]
      exact hmove s _ (inv_cons_of_quiet .silent hi nofun nofun nofun) rfl
  · cases hs

theorem regionLoad_inv (hi : Inv size s h) (hs : step size s (.regionLoad c) = some t) :
    Inv size t (event size s (.regionLoad c) :: h) := by
  simp only [step] at hs
  split at hs
  · next addr hc =>
    cases hs
    simp only [event, hc]
    have hcons := inv_cons_of_quiet (.loaded c addr (s.memory addr)) hi nofun nofun nofun
    exact inv_cpu_outside c .idle hcons (fun _ => by rw [hc]; exact id) (fun _ => id) nofun
  · cases hs

theorem reservationExchange_inv (addr : Nat) (expected value : Word) (hi : Inv size s h)
    (hs : step size s (.reservationExchange c addr expected value) = some t) : Inv size t h := by
  simp only [step] at hs
  split at hs
  · next hc =>
    cases hs
    exact inv_cpu_outside c _ hi (fun _ => by rw [hc]; exact id) (fun _ => id) nofun
  · cases hs

theorem tryLock_inv (hi : Inv size s h) (hs : step size s (.tryLock c) = some t) :
    Inv size t (event size s (.tryLock c) :: h) := by
  simp only [step] at hs
  split at hs
  · next addr expected value hc =>
    simp only [event, hc]
    have hcons := fun ev => inv_cons_of_quiet ev hi
    split at hs
    · next ho =>
      cases hs
      rw [if_pos ho]
      exact inv_lock c addr expected value (hcons .silent nofun nofun nofun) hc ho
    · next ho =>
      cases hs
      rw [if_neg ho]
      exact inv_cpu_outside c .idle (hcons (.returned c addr false) nofun nofun
        nofun) (fun _ => by rw [hc]; exact id) (fun _ => id) nofun
  · cases hs

theorem memoryExchange_inv (hi : Inv size s h) (hs : step size s (.memoryExchange c) = some t) :
    Inv size t (event size s (.memoryExchange c) :: h) := by
  simp only [step] at hs
  split at hs
  · next addr expected value hc =>
    simp only [event, hc]
    have hcons := inv_cons_of_quiet (.exchanged c addr expected (s.memory addr)) hi nofun
      (fun d a hd _ _ _ hl => by cases hl; rw [hc] at hd; cases hd) nofun
    split at hs
    · next hw =>
      cases hs
      refine inv_memory _ (inv_cpu c (.unlocking addr true) hcons
        (fun _ => by rw [hc]; exact Iff.rfl) nofun (fun a hl => ?_))
      cases hl
      rcases hi.holder c (getEntry size addr) (by rw [hc]; rfl) with ⟨since, hsince⟩
      refine ⟨[], since, expected, ?_, fun _ _ _ => not_mem_nil⟩
      rw [hw]
      exact undisturbedSince_cons c _ _ h since
        ⟨fun hl => (by cases hl), fun _ _ _ _ hl => by cases hl⟩ hsince
    · cases hs
      exact inv_cpu c (.unlocking addr false) hcons
        (fun _ => by rw [hc]; exact Iff.rfl) nofun nofun
  · cases hs

/-- The store of `Unlock`. The entry has neither owner nor holder after it, so
    nobody needs to know of the completed store but the CPU itself. -/
theorem unlock_inv (hi : Inv size s h) (hs : step size s (.unlock c) = some t) :
    Inv size t (event size s (.unlock c) :: h) := by
  simp only [step] at hs
  split at hs
  · next addr written hc =>
    cases hs
    simp only [event, hc]
    have hfree := inv_unlock c addr written hi hc
    refine inv_cons _ hfree (fun d e hd => ⟨fun hl => (by cases hl), ?_⟩)
      (fun d e hd => ⟨fun hl => (by cases hl), ?_⟩) nofun
      (fun d a hl => ?_)
    · rintro d' a hne rfl hl
      cases hl
      simp at hd
    · rintro d' a hne rfl hl
      cases hl
      have hlock := (hfree.locked_iff (getEntry size addr)).mpr ⟨d, hd⟩
      simp at hlock
    · cases hl
      exact hi.written c addr hc
  · cases hs

theorem record_inv (x y : System Cpu Word × List (Event Cpu Word))
    (a : Action Cpu Word) (hi : Inv size x.1 x.2) (hr : record size x a = some y) :
    Inv size y.1 y.2 := by
  rcases x with ⟨s, h⟩
  rcases Option.map_eq_some_iff.mp hr with ⟨t, hs, rfl⟩
  have hsil : Inv size s (.silent :: h) :=
    inv_cons_of_quiet .silent hi nofun nofun nofun
  cases a with
  | setOwnerLoad c addr => exact setOwnerLoad_inv addr hsil hs
  | setOwnerExchange c => exact setOwnerExchange_inv hi hs
  | regionLoad c => exact regionLoad_inv hi hs
  | reservationExchange c addr expected value =>
    exact reservationExchange_inv addr expected value hsil hs
  | tryLock c => exact tryLock_inv hi hs
  | memoryExchange c => exact memoryExchange_inv hi hs
  | unlock c => exact unlock_inv hi hs
  | store addr value =>
    cases hs
    exact inv_memory _ hsil

omit [DecidableEq Cpu] [DecidableEq Word] in
theorem init_inv : Inv size (init memory : System Cpu Word) [] :=
  { locked_iff := fun _ => iff_of_false nofun (fun ⟨_, hl⟩ => hl)
    unique := fun _ _ _ hl _ => hl.elim
    stealing := fun _ _ _ hl => by cases hl
    owner := fun _ _ hl => by cases hl
    holder := fun _ _ hl => hl.elim
    written := fun _ _ hl => by cases hl
    returned := fun _ _ post pre hl => absurd hl (by simp) }

theorem run_inv (acts : List (Action Cpu Word)) (y : System Cpu Word × List (Event Cpu Word))
    (hr : Lib.run (record size) (init memory, []) acts = some y) : Inv size y.1 y.2 :=
  Lib.run_preserves (record size) (fun x => Inv size x.1 x.2)
    (fun x a y hi hy => record_inv x y a hi hy) acts _ y (init_inv memory) hr

/-- When a `ReservationExchange` returned true, the history before it goes back to the CPU's last
    successful `SetOwner` on the entry without a completed exclusive store of another CPU on the
    entry, and the CPU's last compare-exchange found the word it expected. An entry is locked
    exactly while one CPU is between a successful `TryLock` and its `Unlock`. -/
theorem reservationExchange_exclusive (size : Nat) (memory : Nat → Word)
    (acts : List (Action Cpu Word)) (s : System Cpu Word) (h : List (Event Cpu Word))
    (hr : Lib.run (record size) (init memory, []) acts = some (s, h)) :
    (∀ c addr post pre, h = post ++ .returned c addr true :: pre → ∃ later earlier before word,
        pre = later ++ .exchanged c addr word word :: earlier ++
          .owned c (getEntry size addr) :: before ∧
        (∀ a expected found, .exchanged c a expected found ∉ later) ∧
        .owned c (getEntry size addr) ∉ later ++ .exchanged c addr word word :: earlier ∧
        ∀ d b, d ≠ c → getEntry size b = getEntry size addr →
          .returned d b true ∉ later ++ .exchanged c addr word word :: earlier) ∧
    ∀ entry, s.owners entry = .locked ↔ ∃! c, (s.cpus c).Holds size entry := by
  have hi := run_inv memory acts (s, h) hr
  constructor
  · intro c addr post pre heq
    rcases hi.returned c addr post pre heq with ⟨later, earlier, word, ⟨⟨before, hb⟩, ho, hd⟩, hl⟩
    exact ⟨later, earlier, before, word, hb, hl, ho, hd⟩
  · intro entry
    rw [hi.locked_iff entry]
    constructor
    · rintro ⟨c, hc⟩
      exact ⟨c, hc, fun d hd => hi.unique d c entry hd hc⟩
    · rintro ⟨c, hc, _⟩
      exact ⟨c, hc⟩

end Cpus

/-- Two CPUs load one region, the second stealing the entry from the first, and both store. -/
def stealActions : List (Action Bool Nat) :=
  [.setOwnerLoad false 16, .setOwnerExchange false, .regionLoad false,
    .setOwnerLoad true 16, .setOwnerExchange true, .regionLoad true,
    .reservationExchange false 16 0 1, .tryLock false,
    .reservationExchange true 16 0 2, .tryLock true, .memoryExchange true, .unlock true]

/-- Only the store of the CPU that stole the entry succeeds. -/
theorem reservationExchange_exclusive_steal :
    ∃ s h, Lib.run (record 8) (init fun _ => 0, []) stealActions = some (s, h) ∧
      h.head? = some (.returned true 16 true) ∧ .returned false 16 false ∈ h ∧
      ∀ entry, s.owners entry = .locked ↔ ∃! c, (s.cpus c).Holds 8 entry :=
  ⟨_, _, rfl, rfl, by decide, (reservationExchange_exclusive 8 (fun _ => 0) stealActions _ _ rfl).2⟩

end Berberis.MemoryRegionReservation
