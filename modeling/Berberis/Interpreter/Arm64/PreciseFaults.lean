import Berberis.Interpreter.Arm64.LoadStore

/-!
# Faults of Loads and Stores

A fault is precise if no access is made after it, and the registers are as they
were before the instruction. Most functions make all their accesses first, stop
at the first fault, and write registers at the end through the setters, which do
nothing after a fault. Two kinds of functions do otherwise. The function for a
pair of vector registers does not stop after the first of its two accesses. The
loops over the registers of a structure write each register before the next one
is read.

## Theorems

* `loop_quiet`, `loop_loads`: The loops over registers.
* `interpretInsn_precise`: An instruction's faults are precise exactly when the
  condition holds.
-/

namespace Berberis.Arm64

open List Function State Lib.EarlyExit

/-- After a fault nothing else is accessed, and no register has changed. -/
def Precise (cpu : CPUState) (s : State) : Prop :=
  (∃ event ∈ s.events, event.isFault) →
    s.cpu = cpu ∧
      ∃ before event, s.events = before ++ [event] ∧ ∀ other ∈ before, other.isFault = false

def NoFault (s s' : State) : Prop :=
  ∃ since, s'.events = s.events ++ since ∧ ∀ event ∈ since, event.isFault = false

/-- Only memory and the events have changed since, and no access has faulted. -/
structure Quiet (s s' : State) : Prop where
  cpu : s'.cpu = s.cpu
  branch : s'.branchTaken = s.branchTaken
  exception : s'.exceptionRaised = s.exceptionRaised
  noFault : NoFault s s'

def FaultsLast (s s' : State) : Prop :=
  ∃ since event, s'.events = s.events ++ since ++ [event] ∧ event.isFault ∧
    ∀ other ∈ since, other.isFault = false

/-- A fault was the last access, the flag is set, and no register has changed. -/
structure Stopped (s s' : State) : Prop where
  cpu : s'.cpu = s.cpu
  exception : s'.exceptionRaised
  last : FaultsLast s s'

section Outcomes

variable {s s₁ s₂ s' : State}

theorem NoFault.refl (s : State) : NoFault s s := ⟨[], by simp, by simp⟩

theorem NoFault.trans (h : NoFault s s₁) (h' : NoFault s₁ s₂) : NoFault s s₂ := by
  obtain ⟨es, heq, hes⟩ := h
  obtain ⟨es', heq', hes'⟩ := h'
  refine ⟨es ++ es', by rw [heq', heq, append_assoc], ?_⟩
  intro event hmem
  rcases mem_append.mp hmem with hmem | hmem
  · exact hes event hmem
  · exact hes' event hmem

theorem NoFault.faultsLast (h : NoFault s s₁) (h' : FaultsLast s₁ s₂) : FaultsLast s s₂ := by
  obtain ⟨es, heq, hes⟩ := h
  obtain ⟨es', event, heq', hevent, hes'⟩ := h'
  refine ⟨es ++ es', event, by rw [heq', heq]; simp only [append_assoc], hevent, ?_⟩
  intro other hmem
  rcases mem_append.mp hmem with hmem | hmem
  · exact hes other hmem
  · exact hes' other hmem

theorem Quiet.trans (h : Quiet s s₁) (h' : Quiet s₁ s₂) : Quiet s s₂ :=
  ⟨h'.cpu.trans h.cpu, h'.branch.trans h.branch, h'.exception.trans h.exception,
    h.noFault.trans h'.noFault⟩

theorem Quiet.stopped (h : Quiet s s₁) (h' : Stopped s₁ s₂) : Stopped s s₂ :=
  ⟨h'.cpu.trans h.cpu, h'.exception, h.noFault.faultsLast h'.last⟩

theorem NoFault.of_events (h : NoFault s s₁) (heq : s₂.events = s₁.events) : NoFault s s₂ := by
  obtain ⟨es, hes⟩ := h
  exact ⟨es, by rw [heq]; exact hes.1, hes.2⟩

theorem precise_of_outcome (hev : s.events = []) (h : NoFault s s' ∨ Stopped s s') :
    Precise s.cpu s' := by
  rintro ⟨event, hmem, hfault⟩
  rcases h with ⟨es, heq, hes⟩ | ⟨hcpu, -, es, last, heq, -, hes⟩
  · rw [heq, hev, nil_append] at hmem
    rw [hes event hmem] at hfault
    cases hfault
  · rw [hev, nil_append] at heq
    exact ⟨hcpu, es, last, heq, hes⟩

theorem precise_iff_of_faultsLast (hev : s.events = []) (h : FaultsLast s s') :
    Precise s.cpu s' ↔ s'.cpu = s.cpu := by
  obtain ⟨es, event, heq, hfault, hes⟩ := h
  rw [hev, nil_append] at heq
  refine ⟨fun hprec => ?_, fun hcpu _ => ⟨hcpu, es, event, heq, hes⟩⟩
  exact (hprec ⟨event, by rw [heq]; simp, hfault⟩).1

theorem not_precise_of_access_after {cpu : CPUState} {before after : List Event} {event : Event}
    (heq : s'.events = before ++ event :: after) (hfault : event.isFault) (haft : after ≠ []) :
    ¬Precise cpu s' := by
  intro hprec
  obtain ⟨-, es, last, hlast, hes⟩ := hprec ⟨event, by rw [heq]; simp, hfault⟩
  -- The fault is not the last event, so it is among those that did not fault.
  have hmem : event ∈ es := by
    rw [heq, ← dropLast_append_getLast haft, ← cons_append, ← append_assoc] at hlast
    have hes := (append_inj' hlast rfl).1
    rw [← hes]
    simp
  rw [hes event hmem] at hfault
  cases hfault

end Outcomes

section Accesses

variable {faults : Access → Bool} {s s' : State}

theorem noFault_log {event : Event} (h : event.isFault = false) : NoFault s (s.log event) :=
  ⟨[event], rfl, by simpa using h⟩

theorem faultsLast_log {event : Event} (h : event.isFault) :
    FaultsLast s (s.log event).handleMemoryFault :=
  ⟨[], event, by rw [append_nil]; rfl, h, by simp⟩

variable (faults)

theorem faultyLoad_cases (s : State) (addr : BitVec 64) (dataBytes : Nat) :
    (faults ⟨false, addr, dataBytes⟩ = false ∧
      ∃ s', faultyLoad faults s addr dataBytes = (some (s.readMemory addr dataBytes), s') ∧
        Quiet s s' ∧ s'.memory = s.memory) ∨ (faults ⟨false, addr, dataBytes⟩ = true ∧
      ∃ s', faultyLoad faults s addr dataBytes = (none, s') ∧ Stopped s s'.handleMemoryFault) := by
  unfold faultyLoad
  dsimp only
  cases hfault : faults ⟨false, addr, dataBytes⟩ with
  | false =>
    exact Or.inl ⟨rfl, s.log (.access ⟨false, addr, dataBytes⟩ false), rfl,
      ⟨rfl, rfl, rfl, noFault_log rfl⟩, rfl⟩
  | true =>
    exact Or.inr ⟨rfl, s.log (.access ⟨false, addr, dataBytes⟩ true), rfl, rfl, rfl,
      faultsLast_log rfl⟩

theorem faultyStore_cases (s : State) (addr : BitVec 64) (dataBytes : Nat) (value : BitVec 64) :
    (faults ⟨true, addr, dataBytes⟩ = false ∧
      ∃ s', faultyStore faults s addr dataBytes value = (false, s') ∧ Quiet s s') ∨
    (faults ⟨true, addr, dataBytes⟩ = true ∧
      ∃ s', faultyStore faults s addr dataBytes value = (true, s') ∧
        Stopped s s'.handleMemoryFault) := by
  unfold faultyStore
  dsimp only
  cases hfault : faults ⟨true, addr, dataBytes⟩ with
  | false =>
    let s' := (s.writeMemory addr dataBytes value).log (.access ⟨true, addr, dataBytes⟩ false)
    exact Or.inl ⟨rfl, s', rfl, rfl, rfl, rfl, _, rfl, by simp [Event.isFault]⟩
  | true =>
    exact Or.inr ⟨rfl, s.log (.access ⟨true, addr, dataBytes⟩ true), rfl, rfl, rfl,
      faultsLast_log rfl⟩

end Accesses

section Setters

variable {s s' : State} {value : BitVec 64}

variable (reg : Fin 32)

theorem State.setRegOrIgnore_events : (s.setRegOrIgnore reg value).events = s.events := by
  unfold setRegOrIgnore setReg
  split
  · split <;> rfl
  · rfl

theorem State.setRegOrSp_events : (s.setRegOrSp reg value).events = s.events := by
  unfold setRegOrSp setReg setSp
  split
  · split <;> rfl
  · split <;> rfl

theorem State.writeXOrIgnore_events : (s.writeXOrIgnore reg value).events = s.events := by
  unfold writeXOrIgnore
  split <;> rfl

theorem State.writeXOrSp_events : (s.writeXOrSp reg value).events = s.events := by
  unfold writeXOrSp
  split <;> rfl

variable {rn : Fin 32}

theorem postIndex_events {postindex : Bool} {rm : Fin 32} {baseAddr : BitVec 64}
    {totalBytes : Nat} : (postIndex s postindex rn rm baseAddr totalBytes).events = s.events := by
  unfold postIndex writeXOrSetSp setSp
  dsimp only
  split
  · split
    · rfl
    · split <;> rfl
  · rfl

theorem State.setRegOrIgnore_of_exception (h : s.exceptionRaised) :
    s.setRegOrIgnore reg value = s := by
  simp [setRegOrIgnore, setReg, h]

theorem State.setRegOrSp_of_exception (h : s.exceptionRaised) :
    s.setRegOrSp reg value = s := by
  simp [setRegOrSp, setReg, setSp, h]

def Outcome (s s' : State) : Prop := NoFault s s' ∨ Stopped s s'

theorem Outcome.setRegOrIgnore (h : Outcome s s') (reg : Fin 32) :
    Outcome s (s'.setRegOrIgnore reg value) := by
  rcases h with h | h
  · exact Or.inl (h.of_events (setRegOrIgnore_events reg))
  · rw [setRegOrIgnore_of_exception reg h.exception]
    exact Or.inr h

theorem Outcome.setRegOrSp (h : Outcome s s') (reg : Fin 32) :
    Outcome s (s'.setRegOrSp reg value) := by
  rcases h with h | h
  · exact Or.inl (h.of_events (setRegOrSp_events reg))
  · rw [setRegOrSp_of_exception reg h.exception]
    exact Or.inr h

section

variable {isPreindex isPostindex : Bool} {addr base : BitVec 64} {offset : Int}

theorem writeBack_events :
    (writeBack s isPreindex isPostindex rn addr base offset).events = s.events := by
  unfold writeBack
  split
  · exact setRegOrSp_events rn
  · split
    · exact setRegOrSp_events rn
    · rfl

theorem writeBack_of_exception (h : s.exceptionRaised) :
    writeBack s isPreindex isPostindex rn addr base offset = s := by
  unfold writeBack
  simp [setRegOrSp_of_exception rn h]

end

theorem Outcome.writeBack {isPreindex isPostindex : Bool} {rn : Fin 32} {addr base : BitVec 64}
    {offset : Int} (h : Outcome s s') :
    Outcome s (writeBack s' isPreindex isPostindex rn addr base offset) := by
  rcases h with h | h
  · exact Or.inl (h.of_events writeBack_events)
  · rw [writeBack_of_exception h.exception]
    exact Or.inr h

theorem finalizeInsn_events {insnLen : BitVec 64} : (finalizeInsn s insnLen).events = s.events := by
  unfold finalizeInsn
  split <;> rfl

theorem finalizeInsn_of_exception {insnLen : BitVec 64} (h : s.exceptionRaised) :
    finalizeInsn s insnLen = s := by
  simp [finalizeInsn, h]

end Setters

section Functions

variable {faults : Access → Bool} {s : State}

variable (size : LoadStoreSize) (base : BitVec 64) (offset : Int)

theorem store_outcome (data : BitVec 64) : Outcome s (store faults s size base offset data) := by
  unfold store
  rcases faultyStore_cases faults s (applyTbi (addImm base offset)) size.dataBytes data with
    ⟨-, s', hstore, hquiet⟩ | ⟨-, s', hstore, hstop⟩
  · rw [hstore]
    exact Or.inl hquiet.noFault
  · rw [hstore]
    exact Or.inr hstop

theorem load_outcome (isSigned is64bitTarget : Bool) (base : BitVec 64)
    (offset : Int) : Outcome s (load faults s size isSigned is64bitTarget base offset).2 := by
  unfold load
  rcases faultyLoad_cases faults s (applyTbi (addImm base offset)) size.dataBytes with
    ⟨-, s', hload, hquiet, -⟩ | ⟨-, s', hload, hstop⟩
  · rw [hload]
    exact Or.inl hquiet.noFault
  · rw [hload]
    exact Or.inr hstop

theorem storePair_outcome (data1 data2 : BitVec 64) (scale : Nat) :
    Outcome s (storePair faults s size base offset data1 data2 scale) := by
  unfold storePair
  dsimp only
  rcases faultyStore_cases faults s (applyTbi (addImm base offset))
      (if size = .k64bit then 8 else 4) data1 with
    ⟨-, s₁, hstore, hquiet⟩ | ⟨-, s₁, hstore, hstop⟩
  · rw [hstore]
    dsimp only
    rcases faultyStore_cases faults s₁ (applyTbi (addImm base offset + BitVec.ofNat 64 scale))
        (if size = .k64bit then 8 else 4) data2 with
      ⟨-, s₂, hstore', hquiet'⟩ | ⟨-, s₂, hstore', hstop⟩
    · rw [hstore']
      exact Or.inl (hquiet.trans hquiet').noFault
    · rw [hstore']
      exact Or.inr (hquiet.stopped hstop)
  · rw [hstore]
    exact Or.inr hstop

theorem loadPair_outcome (rt1 rt2 : Fin 32) (scale : Nat) (isSigned : Bool) :
    Outcome s (loadPair faults s size base offset rt1 rt2 scale isSigned) := by
  unfold loadPair
  dsimp only
  rcases faultyLoad_cases faults s (applyTbi (addImm base offset))
      (if size = .k64bit then 8 else 4) with
    ⟨-, s₁, hload, hquiet, -⟩ | ⟨-, s₁, hload, hstop⟩
  · rw [hload]
    dsimp only
    rcases faultyLoad_cases faults s₁ (applyTbi (addImm base offset + BitVec.ofNat 64 scale))
        (if size = .k64bit then 8 else 4) with
      ⟨-, s₂, hload', hquiet', -⟩ | ⟨-, s₂, hload', hstop⟩
    · rw [hload']
      refine Or.inl ((hquiet.trans hquiet').noFault.of_events ?_)
      rw [writeXOrIgnore_events, writeXOrIgnore_events]
    · rw [hload']
      exact Or.inr (hquiet.stopped hstop)
  · rw [hload]
    exact Or.inr hstop

end Functions

section Simd

variable {faults : Access → Bool} {s : State}

def simdAccesses (isStore : Bool) (hostAddr : BitVec 64) (size : SimdLoadStoreSize) :
    List Access :=
  if size = .k128bit then [⟨isStore, hostAddr, 8⟩, ⟨isStore, hostAddr + 8, 8⟩]
  else [⟨isStore, hostAddr, size.bytes⟩]

def simdLoaded (s : State) (hostAddr : BitVec 64) (size : SimdLoadStoreSize) : BitVec 128 :=
  if size = .k128bit then ofHalves (s.readMemory hostAddr 8) (s.readMemory (hostAddr + 8) 8)
  else (s.readMemory hostAddr size.bytes).setWidth 128

theorem readMemory_congr {s' : State} (h : s'.memory = s.memory) (addr : BitVec 64)
    (dataBytes : Nat) : s'.readMemory addr dataBytes = s.readMemory addr dataBytes := by
  unfold readMemory
  rw [h]

variable (faults s)

section

variable (hostAddr : BitVec 64)
variable (rt : Fin 32) (size : SimdLoadStoreSize) (isStore : Bool)

include hostAddr

theorem simdStoreToMemory_cases :
    ((∀ access ∈ simdAccesses true hostAddr size, faults access = false) ∧
      Quiet s (simdStoreToMemory faults s hostAddr rt size)) ∨
    ((∃ access ∈ simdAccesses true hostAddr size, faults access) ∧
      Stopped s (simdStoreToMemory faults s hostAddr rt size)) := by
  unfold simdStoreToMemory simdAccesses
  by_cases hsize : size = .k128bit
  · simp only [hsize, if_true]
    rcases faultyStore_cases faults s hostAddr 8 ((s.cpu.v rt).setWidth 64) with
      ⟨hlo, s₁, hstore, hquiet⟩ | ⟨hlo, s₁, hstore, hstop⟩
    · rw [hstore]
      dsimp only
      rcases faultyStore_cases faults s₁ (hostAddr + 8) 8 ((s.cpu.v rt >>> 64).setWidth 64) with
        ⟨hhi, s₂, hstore', hquiet'⟩ | ⟨hhi, s₂, hstore', hstop⟩
      · rw [hstore']
        exact Or.inl ⟨by simpa [hlo] using hhi, hquiet.trans hquiet'⟩
      · rw [hstore']
        exact Or.inr ⟨⟨_, by simp, hhi⟩, hquiet.stopped hstop⟩
    · rw [hstore]
      exact Or.inr ⟨⟨_, by simp, hlo⟩, hstop⟩
  · simp only [hsize, if_false]
    rcases faultyStore_cases faults s hostAddr size.bytes ((s.cpu.v rt).setWidth 64) with
      ⟨hlo, s₁, hstore, hquiet⟩ | ⟨hlo, s₁, hstore, hstop⟩
    · rw [hstore]
      exact Or.inl ⟨by simpa using hlo, hquiet⟩
    · rw [hstore]
      exact Or.inr ⟨⟨_, by simp, hlo⟩, hstop⟩

theorem simdLoadFromMemory_cases :
    ((∀ access ∈ simdAccesses false hostAddr size, faults access = false) ∧
      ∃ s₁, Quiet s s₁ ∧ s₁.memory = s.memory ∧
        simdLoadFromMemory faults s hostAddr rt size = s₁.writeV rt (simdLoaded s hostAddr size)) ∨
    ((∃ access ∈ simdAccesses false hostAddr size, faults access) ∧
      Stopped s (simdLoadFromMemory faults s hostAddr rt size)) := by
  unfold simdLoadFromMemory simdAccesses simdLoaded
  by_cases hsize : size = .k128bit
  · simp only [hsize, if_true]
    rcases faultyLoad_cases faults s hostAddr 8 with
      ⟨hlo, s₁, hload, hquiet, hmem⟩ | ⟨hlo, s₁, hload, hstop⟩
    · rw [hload]
      dsimp only
      rcases faultyLoad_cases faults s₁ (hostAddr + 8) 8 with
        ⟨hhi, s₂, hload', hquiet', hmem'⟩ | ⟨hhi, s₂, hload', hstop⟩
      · rw [hload', readMemory_congr hmem]
        exact Or.inl ⟨by simpa [hlo] using hhi, s₂, hquiet.trans hquiet', hmem'.trans hmem, rfl⟩
      · rw [hload']
        exact Or.inr ⟨⟨_, by simp, hhi⟩, hquiet.stopped hstop⟩
    · rw [hload]
      exact Or.inr ⟨⟨_, by simp, hlo⟩, hstop⟩
  · simp only [hsize, if_false]
    rcases faultyLoad_cases faults s hostAddr size.bytes with
      ⟨hlo, s₁, hload, hquiet, hmem⟩ | ⟨hlo, s₁, hload, hstop⟩
    · rw [hload]
      exact Or.inl ⟨by simpa using hlo, s₁, hquiet, hmem, rfl⟩
    · rw [hload]
      exact Or.inr ⟨⟨_, by simp, hlo⟩, hstop⟩

theorem simdAccess_cases : ((∀ access ∈ simdAccesses isStore hostAddr size, faults access = false) ∧
      ∃ s₁, Quiet s s₁ ∧ simdAccess faults s hostAddr rt size isStore =
        if isStore then s₁ else s₁.writeV rt (simdLoaded s hostAddr size)) ∨
    ((∃ access ∈ simdAccesses isStore hostAddr size, faults access) ∧
      Stopped s (simdAccess faults s hostAddr rt size isStore)) := by
  cases isStore with
  | false =>
    rcases simdLoadFromMemory_cases faults s hostAddr rt size with
      ⟨hok, s₁, hquiet, -, heq⟩ | h
    · exact Or.inl ⟨hok, s₁, hquiet, heq⟩
    · exact Or.inr h
  | true =>
    rcases simdStoreToMemory_cases faults s hostAddr rt size with
      ⟨hok, hquiet⟩ | h
    · exact Or.inl ⟨hok, _, hquiet, rfl⟩
    · exact Or.inr h

theorem simdAccess_outcome :
    Outcome s (simdAccess faults s hostAddr rt size isStore) := by
  rcases simdAccess_cases faults s hostAddr rt size isStore with
    ⟨-, s₁, hquiet, heq⟩ | ⟨-, hstop⟩
  · refine Or.inl (hquiet.noFault.of_events ?_)
    rw [heq]
    split <;> rfl
  · exact Or.inr hstop

theorem simdAccess_events : ∃ event since, (simdAccess faults s hostAddr rt size isStore).events =
      s.events ++ event :: since := by
  unfold simdAccess simdStoreToMemory simdLoadFromMemory faultyStore faultyLoad
  dsimp only
  generalize hostAddr + 8 = hiAddr
  by_cases hsize : size = .k128bit
  · cases hlo : faults ⟨isStore, hostAddr, 8⟩ <;> cases hhi : faults ⟨isStore, hiAddr, 8⟩ <;>
      cases isStore <;>
      simp [hsize, hlo, hhi, handleMemoryFault, writeV, writeMemory, log]
  · cases hlo : faults ⟨isStore, hostAddr, size.bytes⟩ <;> cases isStore <;>
      simp [hsize, hlo, handleMemoryFault, writeV, writeMemory, log]

end

end Simd

section Loops

variable {faults : Access → Bool}

/-- The rounds of a loop write no register: each is quiet, or it stops. -/
def QuietRounds {σ : Type} (state : σ → State) (round : Nat → σ → σ × Bool) : Prop :=
  ∀ r p, (∃ p', round r p = (p', true) ∧ Quiet (state p) (state p')) ∨
    ∃ p', round r p = (p', false) ∧ Stopped (state p) (state p')

theorem loop_quiet {σ : Type} {state : σ → State} {round : Nat → σ → σ × Bool}
    (hround : QuietRounds state round) {n : Nat} {p p' : σ} {done : Bool}
    (h : loop round 0 n p = (p', done)) :
    if done then Quiet (state p) (state p') else Stopped (state p) (state p') := by
  have hbody : ∀ r p₁ p₂, Quiet (state p) (state p₁) → round r p₁ = (p₂, true) →
      Quiet (state p) (state p₂) := by
    intro r p₁ p₂ hquiet hr
    rcases hround r p₁ with ⟨p₃, heq, hquiet'⟩ | ⟨p₃, heq, -⟩
    · obtain ⟨rfl, -⟩ := Prod.mk.inj (hr.symm.trans heq)
      exact hquiet.trans hquiet'
    · cases (Prod.mk.inj (hr.symm.trans heq)).2
  rcases loop_spec (fun _ p₁ => Quiet (state p) (state p₁)) hbody
      ⟨rfl, rfl, rfl, NoFault.refl _⟩ h with
    ⟨rfl, hquiet⟩ | ⟨rfl, r, p₁, -, -, hquiet, hr⟩
  · exact hquiet
  · rcases hround r p₁ with ⟨p₃, heq, -⟩ | ⟨p₃, heq, hstop⟩
    · cases (Prod.mk.inj (hr.symm.trans heq)).2
    · obtain ⟨rfl, -⟩ := Prod.mk.inj (hr.symm.trans heq)
      exact hquiet.stopped hstop

/-- A round of a loop that loads a vector register: its accesses, and the
    register's new value for its old one. -/
def LoadRound (faults : Access → Bool) (memory : BitVec 64 → BitVec 8) (rt : Fin 32)
    (accesses : Nat → List Access) (value : Nat → BitVec 128 → BitVec 128)
    (round : Nat → State → State × Bool) : Prop :=
  ∀ r s, s.memory = memory →
    ((∀ access ∈ accesses r, faults access = false) ∧
      ∃ s₁, Quiet s s₁ ∧ s₁.memory = memory ∧
        round r s = (s₁.writeV (vreg rt r) (value r (s.cpu.v (vreg rt r))), true)) ∨
    ((∃ access ∈ accesses r, faults access) ∧ ∃ s', round r s = (s', false) ∧ Stopped s s')

def loadedV (rt : Fin 32) (value : Nat → BitVec 128 → BitVec 128) (v : Fin 32 → BitVec 128) :
    Nat → Fin 32 → BitVec 128
  | 0 => v
  | r + 1 =>
    Function.update (loadedV rt value v r) (vreg rt r)
      (value r (loadedV rt value v r (vreg rt r)))

/-- What holds between the rounds. -/
structure LoadedUpTo (faults : Access → Bool) (rt : Fin 32) (accesses : Nat → List Access)
    (value : Nat → BitVec 128 → BitVec 128) (s : State) (r : Nat) (s' : State) : Prop where
  memory : s'.memory = s.memory
  cpu : s'.cpu = { s.cpu with v := loadedV rt value s.cpu.v r }
  exception : s'.exceptionRaised = s.exceptionRaised
  noFault : NoFault s s'
  accesses : ∀ r' < r, ∀ access ∈ accesses r', faults access = false

variable {rt : Fin 32} {accesses : Nat → List Access} {value : Nat → BitVec 128 → BitVec 128}
  {round : Nat → State → State × Bool} {s s' : State}

variable {r : Nat}

theorem LoadedUpTo.succ (hround : LoadRound faults s.memory rt accesses value round) {s₁ : State}
    (hload : LoadedUpTo faults rt accesses value s r s₁) (hr : round r s₁ = (s', true)) :
    LoadedUpTo faults rt accesses value s (r + 1) s' := by
  rcases hround r s₁ hload.memory with ⟨hok, s₂, hquiet, hmem, heq⟩ | ⟨-, s₃, heq, -⟩
  · obtain ⟨rfl, -⟩ := Prod.mk.inj (hr.symm.trans heq)
    refine ⟨hmem, ?_, ?_, ?_, ?_⟩
    · unfold writeV
      rw [hquiet.cpu, hload.cpu]
      rfl
    · exact hquiet.exception.trans hload.exception
    · exact hload.noFault.trans (hquiet.noFault.of_events rfl)
    · intro r' hr'
      rcases Nat.lt_succ_iff_lt_or_eq.mp hr' with hlt | rfl
      · exact hload.accesses r' hlt
      · exact hok
  · cases (Prod.mk.inj (hr.symm.trans heq)).2

/-- The loop ends after all rounds, or with a fault, after which the registers
    before the faulting one are loaded. -/
theorem loop_loads (hround : LoadRound faults s.memory rt accesses value round) {n : Nat}
    {done : Bool} (h : loop round 0 n s = (s', done)) :
    (done = true ∧ LoadedUpTo faults rt accesses value s n s') ∨
    (done = false ∧ ∃ r < n, (∃ access ∈ accesses r, faults access) ∧
      (∀ r' < r, ∀ access ∈ accesses r', faults access = false) ∧
      s'.cpu = { s.cpu with v := loadedV rt value s.cpu.v r } ∧ s'.exceptionRaised ∧
      FaultsLast s s') := by
  have hinit : LoadedUpTo faults rt accesses value s 0 s :=
    ⟨rfl, rfl, rfl, NoFault.refl s, by simp⟩
  rcases loop_spec (fun r => LoadedUpTo faults rt accesses value s r)
      (fun r s₁ s₂ hload hr => hload.succ hround hr) hinit h with
    ⟨hdone, hload⟩ | ⟨hdone, r, s₁, -, hlt, hload, hr⟩
  · rw [Nat.zero_add] at hload
    exact Or.inl ⟨hdone, hload⟩
  · rcases hround r s₁ hload.memory with ⟨-, s₂, -, -, heq⟩ | ⟨hfault, s₃, heq, hstop⟩
    · cases (Prod.mk.inj (hr.symm.trans heq)).2
    · obtain ⟨rfl, -⟩ := Prod.mk.inj (hr.symm.trans heq)
      exact Or.inr ⟨hdone, r, by omega, hfault, hload.accesses,
        hstop.cpu.trans hload.cpu, hstop.exception,
        hload.noFault.faultsLast hstop.last⟩

theorem vreg_injOn {r' : Nat} (hr : r < 32) (hr' : r' < 32) (h : vreg rt r = vreg rt r') :
    r = r' := by
  have hval := congrArg Fin.val h
  simp only [vreg] at hval
  omega

theorem loadedV_vreg (rt : Fin 32) (value : Nat → BitVec 128 → BitVec 128)
    (v : Fin 32 → BitVec 128) (hr : r ≤ 32) :
    (∀ r' < r, loadedV rt value v r (vreg rt r') = value r' (v (vreg rt r'))) ∧
      ∀ reg, (∀ r' < r, reg ≠ vreg rt r') → loadedV rt value v r reg = v reg := by
  induction r with
  | zero => exact ⟨by simp, fun _ _ => rfl⟩
  | succ r ih =>
    obtain ⟨hload, hkept⟩ := ih (by omega)
    -- The register of this round was not loaded before.
    have hfresh : loadedV rt value v r (vreg rt r) = v (vreg rt r) := by
      refine hkept _ fun r' hr' heq => ?_
      have heq' := vreg_injOn (by omega) (by omega) heq
      omega
    constructor
    · intro r' hr'
      unfold loadedV
      rcases Nat.lt_succ_iff_lt_or_eq.mp hr' with hlt | rfl
      · have hne : vreg rt r' ≠ vreg rt r := fun heq => by
          have heq' := vreg_injOn (by omega) (by omega) heq
          omega
        rw [update_of_ne hne]
        exact hload r' hlt
      · rw [update_self, hfresh]
    · intro reg hreg
      unfold loadedV
      rw [update_of_ne (hreg r (by omega))]
      exact hkept reg fun r' hr' => hreg r' (by omega)

theorem loadedV_eq_iff {v : Fin 32 → BitVec 128} (hr : r ≤ 32) :
    loadedV rt value v r = v ↔ ∀ r' < r, value r' (v (vreg rt r')) = v (vreg rt r') := by
  obtain ⟨hload, hkept⟩ := loadedV_vreg rt value v hr
  constructor
  · intro heq r' hr'
    rw [← hload r' hr', heq]
  · intro hsame
    funext reg
    by_cases hreg : ∃ r' < r, reg = vreg rt r'
    · obtain ⟨r', hr', rfl⟩ := hreg
      rw [hload r' hr', hsame r' hr']
    · exact hkept reg fun r' hr' heq => hreg ⟨r', hr', heq⟩

end Loops

section Rounds

variable (faults : Access → Bool)

theorem quietRounds_of_store {round : Nat → State → State × Bool}
    (h : ∀ r s, ∃ addr dataBytes value, round r s =
      match faultyStore faults s addr dataBytes value with
      | (true, s) => (s.handleMemoryFault, false)
      | (false, s) => (s, true)) : QuietRounds id round := by
  intro r s
  obtain ⟨addr, dataBytes, value, heq⟩ := h r s
  rw [heq]
  rcases faultyStore_cases faults s addr dataBytes value with
    ⟨-, s', hstore, hquiet⟩ | ⟨-, s', hstore, hstop⟩
  · rw [hstore]
    exact Or.inl ⟨s', rfl, hquiet⟩
  · rw [hstore]
    exact Or.inr ⟨_, rfl, hstop⟩

theorem storeChunk_rounds (buf : Nat → BitVec 8) (baseAddr : BitVec 64) :
    QuietRounds id (storeChunk faults buf baseAddr) :=
  quietRounds_of_store faults fun _ _ => ⟨_, _, _, rfl⟩

variable (s₀ : State) (rt : Fin 32) (baseAddr : BitVec 64) (esize index : Nat)

theorem storeLane_rounds : QuietRounds id (storeLane faults rt baseAddr esize index) :=
  quietRounds_of_store faults fun _ _ => ⟨_, _, _, rfl⟩

theorem storeZero_rounds (aligned : BitVec 64) : QuietRounds id (storeZero faults aligned) :=
  quietRounds_of_store faults fun _ _ => ⟨_, _, _, rfl⟩

theorem storeVector_rounds (vecBytes : Nat) :
    QuietRounds id (storeVector faults rt baseAddr vecBytes) := by
  intro r s
  unfold storeVector
  dsimp only
  generalize applyTbi (baseAddr + BitVec.ofNat 64 (r * vecBytes)) = ptr
  rcases faultyStore_cases faults s ptr 8 ((s.cpu.v (vreg rt r)).setWidth 64) with
    ⟨-, s₁, hstore, hquiet⟩ | ⟨-, s₁, hstore, hstop⟩
  · rw [hstore]
    dsimp only
    split
    · rcases faultyStore_cases faults s₁ (ptr + 8) 8
          ((s.cpu.v (vreg rt r) >>> 64).setWidth 64) with
        ⟨-, s₂, hstore', hquiet'⟩ | ⟨-, s₂, hstore', hstop⟩
      · rw [hstore']
        exact Or.inl ⟨s₂, rfl, hquiet.trans hquiet'⟩
      · rw [hstore']
        exact Or.inr ⟨_, rfl, hquiet.stopped hstop⟩
    · exact Or.inl ⟨s₁, rfl, hquiet⟩
  · rw [hstore]
    exact Or.inr ⟨_, rfl, hstop⟩

def vectorSize (vecBytes : Nat) : SimdLoadStoreSize := if vecBytes > 8 then .k128bit else .k64bit

theorem loadVector_eq (vecBytes r : Nat) (s : State) : loadVector faults rt baseAddr vecBytes r s =
      let ptr := applyTbi (baseAddr + BitVec.ofNat 64 (r * vecBytes))
      (simdLoadFromMemory faults s ptr (vreg rt r) (vectorSize vecBytes),
        (simdAccesses false ptr (vectorSize vecBytes)).all fun access => !faults access) := by
  unfold loadVector simdLoadFromMemory simdAccesses vectorSize
  generalize applyTbi (baseAddr + BitVec.ofNat 64 (r * vecBytes)) = ptr
  by_cases hvec : vecBytes > 8
  · simp only [hvec, if_true]
    rcases faultyLoad_cases faults s ptr 8 with ⟨hlo, s₁, hload, -, -⟩ | ⟨hlo, s₁, hload, -⟩
    · rw [hload]
      dsimp only
      rcases faultyLoad_cases faults s₁ (ptr + 8) 8 with
        ⟨hhi, s₂, hload', -, -⟩ | ⟨hhi, s₂, hload', -⟩
      · rw [hload']
        simp only [all_cons, hlo, hhi, all_nil, Bool.not_false, Bool.and_true]
      · rw [hload']
        simp only [all_cons, hlo, hhi, all_nil, Bool.not_false, Bool.not_true,
          Bool.and_false, Bool.and_true]
    · rw [hload]
      simp only [all_cons, hlo, Bool.not_true, Bool.false_and]
  · simp only [hvec, if_false, reduceCtorEq, SimdLoadStoreSize.bytes]
    rcases faultyLoad_cases faults s ptr 8 with ⟨hlo, s₁, hload, -, -⟩ | ⟨hlo, s₁, hload, -⟩
    · rw [hload]
      simp only [all_cons, hlo, all_nil, Bool.not_false, Bool.and_true]
    · rw [hload]
      simp only [all_cons, hlo, Bool.not_true, Bool.false_and]

def vectorAccesses (baseAddr : BitVec 64) (vecBytes r : Nat) : List Access :=
  simdAccesses false (applyTbi (baseAddr + BitVec.ofNat 64 (r * vecBytes))) (vectorSize vecBytes)

def vectorValue (s : State) (baseAddr : BitVec 64) (vecBytes r : Nat) (_ : BitVec 128) :
    BitVec 128 :=
  simdLoaded s (applyTbi (baseAddr + BitVec.ofNat 64 (r * vecBytes))) (vectorSize vecBytes)

theorem simdLoaded_congr {s s' : State} (h : s'.memory = s.memory) (hostAddr : BitVec 64)
    (size : SimdLoadStoreSize) : simdLoaded s' hostAddr size = simdLoaded s hostAddr size := by
  unfold simdLoaded
  simp [readMemory_congr h]

theorem loadVector_round (vecBytes : Nat) :
    LoadRound faults s₀.memory rt (vectorAccesses baseAddr vecBytes)
      (vectorValue s₀ baseAddr vecBytes) (loadVector faults rt baseAddr vecBytes) := by
  intro r s hmm
  unfold vectorAccesses vectorValue
  rw [loadVector_eq]
  dsimp only
  rcases simdLoadFromMemory_cases faults s
      (applyTbi (baseAddr + BitVec.ofNat 64 (r * vecBytes))) (vreg rt r) (vectorSize vecBytes) with
    ⟨hok, s₁, hquiet, hmem', heq⟩ | ⟨⟨access, hmem, hfault⟩, hstop⟩
  · refine Or.inl ⟨hok, s₁, hquiet, hmem'.trans hmm, ?_⟩
    rw [heq, simdLoaded_congr hmm, all_eq_true.mpr fun access hmem => by simp [hok access hmem]]
  · refine Or.inr ⟨⟨access, hmem, hfault⟩, _, ?_, hstop⟩
    rw [Prod.mk.injEq, all_eq_false]
    exact ⟨rfl, access, hmem, by simp [hfault]⟩

def elementAccesses (baseAddr : BitVec 64) (esize r : Nat) : List Access :=
  [⟨false, applyTbi (baseAddr + BitVec.ofNat 64 (r * esize)), esize⟩]

def elementValue (s : State) (baseAddr : BitVec 64) (esize r : Nat) : BitVec 64 :=
  s.readMemory (applyTbi (baseAddr + BitVec.ofNat 64 (r * esize))) esize

theorem loadRound_of_load (esize : Nat)
    (value : BitVec 64 → BitVec 128 → BitVec 128) {round : Nat → State → State × Bool}
    (h : ∀ r s, round r s =
      match faultyLoad faults s (applyTbi (baseAddr + BitVec.ofNat 64 (r * esize))) esize with
      | (none, s) => (s.handleMemoryFault, false)
      | (some elem, s) => (s.writeV (vreg rt r) (value elem (s.cpu.v (vreg rt r))), true)) :
    LoadRound faults s₀.memory rt (elementAccesses baseAddr esize)
      (fun r => value (elementValue s₀ baseAddr esize r)) round := by
  intro r s hmem
  rw [h]
  unfold elementAccesses elementValue
  rcases faultyLoad_cases faults s (applyTbi (baseAddr + BitVec.ofNat 64 (r * esize))) esize with
    ⟨hok, s₁, hload, hquiet, hmem'⟩ | ⟨hfault, s₁, hload, hstop⟩
  · rw [hload]
    refine Or.inl ⟨by simpa using hok, s₁, hquiet, hmem'.trans hmem, ?_⟩
    dsimp only
    rw [hquiet.cpu, readMemory_congr hmem]
  · rw [hload]
    exact Or.inr ⟨⟨_, by simp, hfault⟩, _, rfl, hstop⟩

theorem loadReplicated_round
    (esize vecBytes : Nat) : LoadRound faults s₀.memory rt (elementAccesses baseAddr esize)
      (fun r _ => replicate (elementValue s₀ baseAddr esize r) esize vecBytes)
      (loadReplicated faults rt baseAddr esize vecBytes) :=
  loadRound_of_load faults s₀ rt baseAddr esize (fun elem _ => replicate elem esize vecBytes)
    fun _ _ => rfl

theorem loadLane_round : LoadRound faults s₀.memory rt (elementAccesses baseAddr esize)
      (fun r old => setBytes old (index * esize) esize (elementValue s₀ baseAddr esize r))
      (loadLane faults rt baseAddr esize index) :=
  loadRound_of_load faults s₀ rt baseAddr esize
    (fun elem old => setBytes old (index * esize) esize elem) fun _ _ => rfl

theorem loadChunk_rounds :
    QuietRounds Prod.fst (loadChunk faults baseAddr) := by
  intro r p
  unfold loadChunk
  rcases faultyLoad_cases faults p.1 (applyTbi baseAddr + BitVec.ofNat 64 (8 * r)) 8 with
    ⟨-, s₁, hload, hquiet, -⟩ | ⟨-, s₁, hload, hstop⟩
  · rw [hload]
    exact Or.inl ⟨_, rfl, hquiet⟩
  · rw [hload]
    exact Or.inr ⟨_, rfl, hstop⟩

end Rounds

/-- If a round of the loads faults, the registers of the rounds before it have
    the values already that are loaded. -/
def LoadsKeep (faults : Access → Bool) (v : Fin 32 → BitVec 128) (rt : Fin 32)
    (accesses : Nat → List Access) (value : Nat → BitVec 128 → BitVec 128) (n : Nat) : Prop :=
  ∀ r < n, (∃ access ∈ accesses r, faults access) →
    (∀ r' < r, ∀ access ∈ accesses r', faults access = false) →
      ∀ r' < r, value r' (v (vreg rt r')) = v (vreg rt r')

/-- Both registers of a pair are accessed without a fault, or only the second
    access faults and the first register has its new value already. -/
def PairKeeps (faults : Access → Bool) (s : State) (args : SimdLoadStorePairArgs) : Prop :=
  let base := s.getRegOrSp args.rn
  let addr := if args.isPreindex ∨ !args.isPostindex then addImm base args.offset else base
  match args.size.elementSize? with
  | none => True
  | some elementSize =>
    let addr1 := applyTbi addr
    let addr2 := applyTbi (addr + BitVec.ofNat 64 elementSize)
    (∀ access ∈ simdAccesses args.isStore addr1 args.size, faults access = false) ∧
      ((∃ access ∈ simdAccesses args.isStore addr2 args.size, faults access) →
        args.isStore ∨ simdLoaded s addr1 args.size = s.cpu.v args.rt1)

def PreciseWhen (faults : Access → Bool) (s : State) : LoadStoreInsn → Prop
  | .simdLoadStorePair args => PairKeeps faults s args
  | .advSimdMultiStruct args =>
    let vecBytes := if args.q then 16 else 8
    let baseAddr := s.getRegOrSp args.rn
    args.isStore ∨ args.isInterleaved ∨
      LoadsKeep faults s.cpu.v args.rt (vectorAccesses baseAddr vecBytes)
        (vectorValue s baseAddr vecBytes) args.numRegs
  | .advSimdSingleStruct args =>
    let baseAddr := s.getRegOrSp args.rn
    let esize := 2 ^ args.size.val
    let vecBytes := if args.q then 16 else 8
    if args.isReplicate then
      LoadsKeep faults s.cpu.v args.rt (elementAccesses baseAddr esize)
        (fun r _ => replicate (elementValue s baseAddr esize r) esize vecBytes) args.numRegs
    else
      args.op.isStore ∨
        LoadsKeep faults s.cpu.v args.rt (elementAccesses baseAddr esize)
          (fun r old =>
            setBytes old (args.index * esize) esize (elementValue s baseAddr esize r))
          args.numRegs
  | _ => True

section Instructions

variable {faults : Access → Bool} {s s' : State}

theorem precise_finalizeInsn (hev : s.events = []) (h : Outcome s s') :
    Precise s.cpu (finalizeInsn s' 4) := by
  refine precise_of_outcome hev ?_
  rcases h with h | h
  · exact Or.inl (h.of_events finalizeInsn_events)
  · rw [finalizeInsn_of_exception h.exception]
    exact Or.inr h

theorem outcome_undefined : Outcome s s.undefined := Or.inl (noFault_log rfl)

theorem precise_loads {rt : Fin 32} {accesses : Nat → List Access}
    {value : Nat → BitVec 128 → BitVec 128} {round : Nat → State → State × Bool}
    (hev : s.events = []) (hround : LoadRound faults s.memory rt accesses value round) {n : Nat}
    (hn : n ≤ 32) {finish : State → State} (hfin : ∀ s, (finish s).events = s.events) :
    Precise s.cpu (finalizeInsn (match loop round 0 n s with
            | (s, false) => s
            | (s, true) => finish s) 4) ↔
      LoadsKeep faults s.cpu.v rt accesses value n := by
  rcases hloop : loop round 0 n s with ⟨s', done⟩
  rcases loop_loads hround hloop with
    ⟨rfl, hload⟩ | ⟨rfl, r, hr, hfault, hbef, hcpu, hexc, hlast⟩
  · constructor
    · -- No round faults.
      rintro - r hr ⟨access, hmem, hfault⟩
      rw [hload.accesses r hr access hmem] at hfault
      cases hfault
    · intro _
      exact precise_finalizeInsn hev (Or.inl (hload.noFault.of_events (hfin s')))
  · rw [finalizeInsn_of_exception hexc, precise_iff_of_faultsLast hev hlast, hcpu]
    have hsame : ({ s.cpu with v := loadedV rt value s.cpu.v r } = s.cpu) ↔
        ∀ r' < r, value r' (s.cpu.v (vreg rt r')) = s.cpu.v (vreg rt r') := by
      rw [← loadedV_eq_iff (by omega)]
      exact ⟨fun heq => congrArg CPUState.v heq, fun heq => by rw [heq]⟩
    rw [hsame]
    refine ⟨fun hkeep r₁ _ hfault₁ hbef₁ => ?_, fun hkeep => hkeep r hr hfault hbef⟩
    -- Only one round is the first that faults.
    rcases Nat.lt_trichotomy r₁ r with hlt | rfl | hlt
    · obtain ⟨access, hmem, hfault₁⟩ := hfault₁
      rw [hbef r₁ hlt access hmem] at hfault₁
      cases hfault₁
    · exact hkeep
    · obtain ⟨access, hmem, hfault⟩ := hfault
      rw [hbef₁ r hlt access hmem] at hfault
      cases hfault

variable (args : LoadStoreImmArgs)

theorem loadStoreImm_outcome :
    Outcome s (loadStoreImm faults s args) := by
  unfold loadStoreImm
  split
  · exact store_outcome _ _ _ _
  · exact (load_outcome _ _ _ _ _).setRegOrIgnore _

theorem loadStoreImmPreIndex_outcome :
    Outcome s (loadStoreImmPreIndex faults s args) := by
  refine Outcome.setRegOrSp ?_ _
  split
  · exact store_outcome _ _ _ _
  · exact (load_outcome _ _ _ _ _).setRegOrIgnore _

theorem loadStoreImmPostIndex_outcome :
    Outcome s (loadStoreImmPostIndex faults s args) := by
  refine Outcome.setRegOrSp ?_ _
  split
  · exact store_outcome _ _ _ _
  · exact (load_outcome _ _ _ _ _).setRegOrIgnore _

theorem loadStorePair_outcome (args : LoadStorePairArgs) :
    Outcome s (loadStorePair faults s args) := by
  refine Outcome.writeBack ?_
  split
  · exact storePair_outcome _ _ _ _ _ _
  · exact loadPair_outcome _ _ _ _ _ _ _

theorem loadStoreReg_outcome (args : LoadStoreRegArgs) :
    Outcome s (loadStoreReg faults s args) := by
  unfold loadStoreReg
  split
  · exact store_outcome _ _ _ _
  · exact (load_outcome _ _ _ _ _).setRegOrIgnore _

theorem mteLoadStore_outcome (args : MteLoadStoreArgs) :
    Outcome s (mteLoadStore faults s args) := by
  have hloop : ∀ aligned n newBase, Outcome s
        (let p := loop (storeZero faults aligned) 0 n s
         if p.2 ∧ (args.op2 = 0b01 ∨ args.op2 = 0b11) then p.1.writeXOrSp args.rn newBase
         else p.1) := by
    intro aligned n newBase
    rcases h : loop (storeZero faults aligned) 0 n s with ⟨s', done⟩
    have hend := loop_quiet (storeZero_rounds faults aligned) h
    cases done with
    | false => exact Or.inr hend
    | true =>
      refine Or.inl (hend.noFault.of_events ?_)
      dsimp only
      split
      · exact writeXOrSp_events _
      · rfl
  -- The other opcodes make no access.
  have hnone : ∀ s' newBase, s'.events = s.events →
      Outcome s (if True ∧ (args.op2 = 0b01 ∨ args.op2 = 0b11) then s'.writeXOrSp args.rn newBase
        else s') := by
    intro s' newBase hsame
    refine Or.inl ((NoFault.refl s).of_events ?_)
    split
    · rw [writeXOrSp_events, hsame]
    · exact hsame
  unfold mteLoadStore
  dsimp only
  cases args.opcode with
  | kStzg | kStz2g => exact hloop _ _ _
  | kLdg | kLdgm => simpa using hnone _ _ (writeXOrIgnore_events _)
  | kStg | kSt2g | kStgm | kStzgm => simpa using hnone _ _ rfl

theorem foldl_writeV_events {α : Type} (reg : α → Fin 32) (value : α → BitVec 128) (l : List α) :
    ∀ s : State, (l.foldl (fun s a => s.writeV (reg a) (value a)) s).events = s.events := by
  induction l with
  | nil => exact fun _ => rfl
  | cons a l ih => exact fun s => ih (s.writeV (reg a) (value a))

theorem precise_multiStruct (hev : s.events = []) (args : AdvSimdMultiStructArgs) :
    Precise s.cpu (finalizeInsn (advSimdMultiStruct faults s args) 4) ↔
      PreciseWhen faults s (.advSimdMultiStruct args) := by
  unfold advSimdMultiStruct PreciseWhen
  dsimp only
  generalize (if args.q then 16 else 8) = vecBytes
  by_cases hinterl : args.isInterleaved
  · refine iff_of_true (precise_finalizeInsn hev ?_) (Or.inr (Or.inl hinterl))
    simp only [hinterl, Bool.not_true, Bool.false_eq_true, if_false]
    split
    · exact outcome_undefined
    · split
      · split
        · next hloop => exact Or.inr (loop_quiet (storeChunk_rounds faults _ _) hloop)
        · next hloop =>
            exact Or.inl ((loop_quiet (storeChunk_rounds faults _ _) hloop).noFault.of_events
              postIndex_events)
      · split
        · next hloop => exact Or.inr (loop_quiet (loadChunk_rounds faults _) hloop)
        · next hloop =>
            refine Or.inl ((loop_quiet (loadChunk_rounds faults _) hloop).noFault.of_events ?_)
            rw [postIndex_events, foldl_writeV_events]
  · simp only [hinterl, Bool.not_false, if_true, Bool.false_eq_true, false_or]
    by_cases hstore : args.isStore
    · refine iff_of_true (precise_finalizeInsn hev ?_) (Or.inl hstore)
      simp only [hstore, if_true]
      split
      · next hloop => exact Or.inr (loop_quiet (storeVector_rounds faults _ _ _) hloop)
      · next hloop =>
          exact Or.inl ((loop_quiet (storeVector_rounds faults _ _ _) hloop).noFault.of_events
            postIndex_events)
    · simp only [hstore, Bool.false_eq_true, if_false, false_or]
      exact precise_loads hev (loadVector_round faults s _ _ _)
        (args.numRegs_le.trans (by omega)) fun _ => postIndex_events

theorem precise_singleStruct (hev : s.events = []) (args : AdvSimdSingleStructArgs) :
    Precise s.cpu (finalizeInsn (advSimdSingleStruct faults s args) 4) ↔
      PreciseWhen faults s (.advSimdSingleStruct args) := by
  unfold advSimdSingleStruct PreciseWhen
  have hn : args.numRegs ≤ 32 := args.numRegs_le.trans (by omega)
  by_cases hrepl : args.isReplicate
  · simp only [hrepl, if_true]
    exact precise_loads hev (loadReplicated_round faults s _ _ _ _) hn
      fun _ => postIndex_events
  · simp only [hrepl, Bool.false_eq_true, if_false]
    by_cases hstore : args.op.isStore
    · refine iff_of_true (precise_finalizeInsn hev ?_) (Or.inl hstore)
      simp only [hstore, if_true]
      split
      · next hloop => exact Or.inr (loop_quiet (storeLane_rounds faults _ _ _ _) hloop)
      · next hloop =>
          exact Or.inl ((loop_quiet (storeLane_rounds faults _ _ _ _) hloop).noFault.of_events
            postIndex_events)
    · simp only [hstore, Bool.false_eq_true, if_false, false_or]
      exact precise_loads hev (loadLane_round faults s _ _ _ _) hn fun _ => postIndex_events

theorem writeV_cpu_eq_iff {s₁ : State} (h : s₁.cpu = s.cpu) {rt : Fin 32} {value : BitVec 128} :
    (s₁.writeV rt value).cpu = s.cpu ↔ value = s.cpu.v rt := by
  unfold writeV
  rw [h]
  constructor
  · intro heq
    have hv : Function.update s.cpu.v rt value rt = s.cpu.v rt :=
      congrFun (congrArg CPUState.v heq) rt
    rwa [update_self] at hv
  · rintro rfl
    rw [update_eq_self]

theorem precise_pair (hev : s.events = []) (args : SimdLoadStorePairArgs) :
    Precise s.cpu (finalizeInsn (simdLoadStorePair faults s args) 4) ↔ PairKeeps faults s args := by
  unfold simdLoadStorePair PairKeeps simdLoadStorePairAt
  dsimp only
  generalize (if args.isPreindex ∨ !args.isPostindex then addImm (s.getRegOrSp args.rn) args.offset
    else s.getRegOrSp args.rn) = addr
  cases args.size.elementSize? with
  | none => exact iff_of_true (precise_finalizeInsn hev outcome_undefined.writeBack) trivial
  | some elementSize =>
    dsimp only
    generalize applyTbi addr = addr1
    generalize applyTbi (addr + BitVec.ofNat 64 elementSize) = addr2
    rcases simdAccess_cases faults s addr1 args.rt1 args.size args.isStore with
      ⟨hok, s₁, hquiet, heq⟩ | ⟨⟨access, hmem, hfault⟩, hstop⟩
    · have hnoF : NoFault s (simdAccess faults s addr1 args.rt1 args.size args.isStore) := by
        refine hquiet.noFault.of_events ?_
        rw [heq]
        split <;> rfl
      generalize simdAccess faults s addr1 args.rt1 args.size args.isStore = s₂ at heq hnoF
      rcases simdAccess_cases faults s₂ addr2 args.rt2 args.size args.isStore with
        ⟨hok', s₃, hquiet', heq'⟩ | ⟨hfault, hstop⟩
      · have hnoF' :
            NoFault s (simdAccess faults s₂ addr2 args.rt2 args.size args.isStore) := by
          refine (hnoF.trans hquiet'.noFault).of_events ?_
          rw [heq']
          split <;> rfl
        refine iff_of_true (precise_finalizeInsn hev
          (Outcome.writeBack (Or.inl hnoF'))) ⟨hok, ?_⟩
        rintro ⟨access, hmem, hfault⟩
        rw [hok' access hmem] at hfault
        cases hfault
      · -- The registers are those after the first access.
        rw [writeBack_of_exception hstop.exception, finalizeInsn_of_exception hstop.exception,
          precise_iff_of_faultsLast hev (hnoF.faultsLast hstop.last), hstop.cpu,
          heq]
        simp only [hfault, true_implies]
        rw [and_iff_right hok]
        cases args.isStore with
        | true => simp [hquiet.cpu]
        | false =>
          simp only [Bool.false_eq_true, if_false, false_or]
          exact writeV_cpu_eq_iff hquiet.cpu
    · -- The second access is made after the fault of the first.
      refine iff_of_false ?_ fun hkeeps => ?_
      · obtain ⟨es, event, heq, hfault', -⟩ := hstop.last
        generalize simdAccess faults s addr1 args.rt1 args.size args.isStore = s₂ at heq
        obtain ⟨next, since, hsince⟩ :=
          simdAccess_events faults s₂ addr2 args.rt2 args.size args.isStore
        have haft : (finalizeInsn (writeBack
            (simdAccess faults s₂ addr2 args.rt2 args.size args.isStore) args.isPreindex
            args.isPostindex args.rn addr (s.getRegOrSp args.rn) args.offset) 4).events =
              (s.events ++ es) ++ event :: (next :: since) := by
          rw [finalizeInsn_events, writeBack_events, hsince, heq]
          simp
        exact not_precise_of_access_after haft hfault' (cons_ne_nil _ _)
      · rw [hkeeps.1 access hmem] at hfault
        cases hfault

/-- An instruction's faults are precise exactly when the condition holds. -/
theorem interpretInsn_precise (faults : Access → Bool) (cpu : CPUState)
    (memory : BitVec 64 → BitVec 8) (insn : LoadStoreInsn) :
    Precise cpu (interpretInsn faults cpu memory insn) ↔
      PreciseWhen faults ⟨cpu, memory, false, false, []⟩ insn := by
  unfold interpretInsn
  have hcpu : cpu = (State.mk cpu memory false false []).cpu := rfl
  have hevents : (State.mk cpu memory false false []).events = [] := rfl
  rw [hcpu]
  generalize State.mk cpu memory false false [] = s at hevents
  cases insn with
  | simdLoadStorePair args => exact precise_pair hevents args
  | advSimdMultiStruct args => exact precise_multiStruct hevents args
  | advSimdSingleStruct args => exact precise_singleStruct hevents args
  | loadStoreImm args =>
    exact iff_of_true (precise_finalizeInsn hevents (loadStoreImm_outcome args)) trivial
  | loadStoreImmPreIndex args =>
    exact iff_of_true (precise_finalizeInsn hevents (loadStoreImmPreIndex_outcome args)) trivial
  | loadStoreImmPostIndex args =>
    exact iff_of_true (precise_finalizeInsn hevents (loadStoreImmPostIndex_outcome args)) trivial
  | loadStorePair args =>
    exact iff_of_true (precise_finalizeInsn hevents (loadStorePair_outcome args)) trivial
  | loadStoreReg args =>
    exact iff_of_true (precise_finalizeInsn hevents (loadStoreReg_outcome args)) trivial
  | simdLoadStoreImm | simdLoadStoreReg =>
    exact iff_of_true (precise_finalizeInsn hevents (simdAccess_outcome faults s _ _ _ _)) trivial
  | simdLoadStoreImmPreIndex | simdLoadStoreImmPostIndex =>
    exact iff_of_true (precise_finalizeInsn hevents
      (Outcome.setRegOrSp (simdAccess_outcome faults s _ _ _ _) _)) trivial
  | mteLoadStore args =>
    exact iff_of_true (precise_finalizeInsn hevents (mteLoadStore_outcome args)) trivial

/-- A pair of vectors is loaded, and the second of them is on a page that is not
    there. The first register is written before the fault. -/
theorem simdLoadStorePair_imprecise : ¬Precise ⟨fun _ => 0, 0, 0, fun _ => 0, 0x1000⟩
      (interpretInsn (fun access => 16 ≤ access.addr.toNat) ⟨fun _ => 0, 0, 0, fun _ => 0, 0x1000⟩
        (fun _ => 1)
        (.simdLoadStorePair ⟨0, 1, 2, 0, .k128bit, false, false, false⟩)) := by
  intro hprecise
  have hcpu := (hprecise ⟨.access ⟨false, 16, 8⟩ true, by decide +kernel, rfl⟩).1
  have hv := congrFun (congrArg CPUState.v hcpu) 0
  revert hv
  decide +kernel

/-- If the first access faults, the second one is made nevertheless. -/
example :
    (interpretInsn (fun access => access.addr.toNat < 16) ⟨fun _ => 0, 0, 0, fun _ => 0, 0x1000⟩
        (fun _ => 1)
        (.simdLoadStorePair ⟨0, 1, 2, 0, .k64bit, true, false, false⟩)).events =
      [.access ⟨true, 0, 8⟩ true, .access ⟨true, 8, 8⟩ true] := by
  decide +kernel

end Instructions

end Berberis.Arm64
