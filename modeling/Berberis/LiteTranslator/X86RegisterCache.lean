import Berberis.Lib.Run

/-!
# Guest Registers in Host Registers

While the lite translator goes through a region it maps guest registers to host
registers: permanently, from one end of a pool, and never again once the pool was
found full. Temporaries come from the other end. A mapped register that was
modified is written back at each exit from the region; one that is not mapped is
written through.

## Theorems

* `Coherent.notMapped`: Temporaries are not mapped, at any time.
* `registers_coherent`: Reads see what was last set, and exits leave it in memory.
-/

namespace Berberis.LiteTranslator.X86

open List Function

/-! ### The pool -/

inductive Register where
  | rax | rcx | rdx | rbx | rsp | rbp | rsi | rdi
  | r8 | r9 | r10 | r11 | r12 | r13 | r14 | r15
  deriving DecidableEq

open Register in
def kAllocatableRegisters : List Register :=
  [rbx, rcx, rsi, rdi, r8, r9, r10, r11, r12, r13, r14, r15, rdx]

def kNumRegister : Nat := kAllocatableRegisters.length

theorem nodup_kAllocatableRegisters : kAllocatableRegisters.Nodup := by
  decide

/-- How many registers are permanent, and how many temporary ones there are and were at most. -/
structure Allocator where
  regsAllocated : Nat
  tempRegsAllocated : Nat
  maxTempRegsAllocated : Nat
  temp_le : tempRegsAllocated ≤ maxTempRegsAllocated
  fits : regsAllocated + maxTempRegsAllocated ≤ kNumRegister

namespace Allocator

def initial : Allocator := ⟨0, 0, 0, Nat.le_refl 0, Nat.zero_le _⟩

def alloc (a : Allocator) : Option (Register × Allocator) :=
  if h : kNumRegister ≤ a.regsAllocated + a.maxTempRegsAllocated then none
  else
    some (kAllocatableRegisters.get ⟨a.regsAllocated, by unfold kNumRegister at h; omega⟩,
      { a with
        regsAllocated := a.regsAllocated + 1
        fits := by omega })

def allocTemp (a : Allocator) : Option (Register × Allocator) :=
  if h : kNumRegister ≤ a.regsAllocated + a.tempRegsAllocated then none
  else
    some (kAllocatableRegisters.get
        ⟨kNumRegister - 1 - a.tempRegsAllocated, by unfold kNumRegister at h ⊢; omega⟩,
      { a with
        tempRegsAllocated := a.tempRegsAllocated + 1
        maxTempRegsAllocated := max a.maxTempRegsAllocated (a.tempRegsAllocated + 1)
        temp_le := Nat.le_max_right _ _
        fits := by
          have := a.fits
          omega })

def freeTemps (a : Allocator) : Allocator :=
  { a with
    tempRegsAllocated := 0
    temp_le := Nat.zero_le _ }

def Permanent (a : Allocator) (r : Register) : Prop :=
  ∃ i, i < a.regsAllocated ∧ kAllocatableRegisters[i]? = some r

def AmongLast (n : Nat) (r : Register) : Prop :=
  ∃ i, i < n ∧ i < kNumRegister ∧ kAllocatableRegisters[kNumRegister - 1 - i]? = some r

theorem not_amongLast_of_permanent (a : Allocator) {r : Register} (h : a.Permanent r) :
    ¬AmongLast a.maxTempRegsAllocated r := by
  rintro ⟨i, hi, hlt, hr⟩
  rcases h with ⟨j, hj, hr'⟩
  have hfits := a.fits
  have heq := (List.getElem?_inj (by unfold kNumRegister at *; omega)
    nodup_kAllocatableRegisters).mp (hr'.trans hr.symm)
  omega

end Allocator

/-! ### The translator -/

/-- The registers `x0` to `x30`. -/
abbrev GuestReg := Fin 31

abbrev Word := BitVec 64

structure RegMaintainer where
  reg : Option Register
  modified : Bool
  deriving DecidableEq

/-- Moves between host registers and the guest registers in `ThreadState`. -/
inductive HostInsn where
  | load (dst : Register) (src : GuestReg)
  | store (dst : GuestReg) (src : Register)
  | move (dst src : Register)
  deriving DecidableEq

structure Translator where
  gpAllocator : Allocator
  gpMaintainer : GuestReg → RegMaintainer
  success : Bool

namespace Translator

def initial : Translator := ⟨Allocator.initial, fun _ => ⟨none, false⟩, true⟩

def map (t : Translator) (reg : GuestReg) (r : Register) (a : Allocator) : Translator :=
  { t with
    gpAllocator := a
    gpMaintainer :=
      Function.update t.gpMaintainer reg { t.gpMaintainer reg with reg := some r } }

def noticeModified (t : Translator) (reg : GuestReg) : Translator :=
  { t with
    gpMaintainer :=
      Function.update t.gpMaintainer reg { t.gpMaintainer reg with modified := true } }

def getMappedRegisterOrMap (t : Translator) (reg : GuestReg) :
    Option Register × Bool × Translator :=
  match (t.gpMaintainer reg).reg with
  | some r => (some r, false, t)
  | none =>
    match t.gpAllocator.alloc with
    | some (r, a) => (some r, true, t.map reg r a)
    | none => (none, false, { t with success := false })

def allocTempReg (t : Translator) : Option Register × Translator :=
  match t.gpAllocator.allocTemp with
  | some (r, a) => (some r, { t with gpAllocator := a })
  | none => (none, { t with success := false })

def freeTempRegs (t : Translator) : Translator :=
  { t with gpAllocator := t.gpAllocator.freeTemps }

def loadToTemp (t : Translator) (reg : GuestReg) :
    Option Register × List HostInsn × Translator :=
  match t.allocTempReg with
  | (some r, t) => (some r, [.load r reg], t)
  | (none, t) => (none, [], t)

section

variable (enableRegMapping : Bool)

def getReg (t : Translator) (reg : GuestReg) : Option Register × List HostInsn × Translator :=
  if t.success = false then (none, [], t)
  else if enableRegMapping then
    match t.getMappedRegisterOrMap reg with
    | (r, isNew, t) =>
      -- When the pool is full, the failure is cleared.
      if t.success = false then { t with success := true }.loadToTemp reg
      else (r, (if isNew then r.toList.map (.load · reg) else []), t)
  else t.loadToTemp reg

def setReg (t : Translator) (reg : GuestReg) (value : Register) : List HostInsn × Translator :=
  if t.success = false then ([], t)
  else if enableRegMapping then
    match t.getMappedRegisterOrMap reg with
    | (r, _, t) =>
      if t.success = false then ([.store reg value], { t with success := true })
      else (r.toList.map (.move · value), t.noticeModified reg)
  else ([.store reg value], t)

def storeMappedRegs (t : Translator) : List HostInsn :=
  if enableRegMapping then
    (List.finRange 31).flatMap fun i =>
      if (t.gpMaintainer i).modified then
        (t.gpMaintainer i).reg.toList.map (.store i ·)
      else []
  else []

end

end Translator

/-! ### Runs -/

/-- The host registers, the guest registers in `ThreadState` and all the rest. -/
structure Machine (W : Type) where
  regs : Register → Word
  x : GuestReg → Word
  world : W

section

variable {W : Type}

def HostInsn.exec (m : Machine W) : HostInsn → Machine W
  | .load dst src => { m with regs := Function.update m.regs dst (m.x src) }
  | .store dst src => { m with x := Function.update m.x dst (m.regs src) }
  | .move dst src => { m with regs := Function.update m.regs dst (m.regs src) }

def Machine.run (m : Machine W) (code : List HostInsn) : Machine W :=
  code.foldl HostInsn.exec m

/-- The calls of handlers, the code that they emit in between, and exits, which
    may be taken or not. -/
inductive Op (W : Type) where
  | getReg (reg : GuestReg)
  | setReg (reg : GuestReg) (value : Register)
  | allocTempReg
  | freeTempRegs
  | compute (dst : Register) (f : (Register → Word) → W → Word × W)
  | exitRegion (taken : (Register → Word) → W → Bool)

/-- The translator and the machine at the same point of the region, what guest registers were last
    set to on the way there, and all temporaries that were handed out. -/
structure Config (W : Type) where
  translator : Translator
  machine : Machine W
  last : GuestReg → Word
  handedOut : List Register

def Config.start (m : Machine W) : Config W := ⟨Translator.initial, m, m.x, []⟩

variable (enableRegMapping : Bool)

/-- Translate a call and run what was emitted, if the translator did not fail
    and the region is not left. -/
def step (c : Config W) (op : Op W) : Option (Config W) :=
  match op with
  | .getReg reg =>
    let (r, code, t) := c.translator.getReg enableRegMapping reg
    if t.success then
      some { c with
        translator := t
        machine := c.machine.run code
        -- A register that is still not mapped was loaded into a temporary.
        handedOut := (if (t.gpMaintainer reg).reg.isSome then [] else r.toList) ++ c.handedOut }
    else none
  | .setReg reg value =>
    let (code, t) := c.translator.setReg enableRegMapping reg value
    if t.success then
      some { c with
        translator := t
        machine := c.machine.run code
        last := Function.update c.last reg (c.machine.regs value) }
    else none
  | .allocTempReg =>
    let (r, t) := c.translator.allocTempReg
    if t.success then
      some { c with
        translator := t
        handedOut := r.toList ++ c.handedOut }
    else none
  | .freeTempRegs => some { c with translator := c.translator.freeTempRegs }
  | .compute dst f =>
    let (v, world) := f c.machine.regs c.machine.world
    some { c with
      machine := { c.machine with
        regs := Function.update c.machine.regs dst v
        world := world } }
  | .exitRegion taken =>
    if taken c.machine.regs c.machine.world then none else some c

/-- Handlers compute into temporaries that they have, and into registers that
    are not in the pool. -/
def Legal (c : Config W) : Op W → Prop
  | .compute dst _ =>
    dst ∉ kAllocatableRegisters ∨
      Allocator.AmongLast c.translator.gpAllocator.tempRegsAllocated dst
  | _ => True

end

/-! ### What calls do -/

namespace Allocator

variable {a a' : Allocator} {r : Register}

theorem alloc_eq_some (h : a.alloc = some (r, a')) :
    kAllocatableRegisters[a.regsAllocated]? = some r ∧ a'.regsAllocated = a.regsAllocated + 1 ∧
      a'.tempRegsAllocated = a.tempRegsAllocated ∧
      a'.maxTempRegsAllocated = a.maxTempRegsAllocated := by
  unfold alloc at h
  split at h
  · cases h
  · cases h
    exact ⟨by simp, rfl, rfl, rfl⟩

theorem allocTemp_eq_some (h : a.allocTemp = some (r, a')) :
    AmongLast (a.tempRegsAllocated + 1) r ∧ a'.regsAllocated = a.regsAllocated ∧
      a'.maxTempRegsAllocated = max a.maxTempRegsAllocated (a.tempRegsAllocated + 1) := by
  unfold allocTemp at h
  split at h
  · cases h
  · next hlt =>
      cases h
      exact ⟨⟨a.tempRegsAllocated, by omega, by omega, by simp⟩, rfl, rfl⟩

theorem AmongLast.mono {n n' : Nat} (h : AmongLast n r) (hle : n ≤ n') : AmongLast n' r := by
  rcases h with ⟨i, hi, hrest⟩
  exact ⟨i, by omega, hrest⟩

theorem Permanent.mono (h : a.Permanent r) (hle : a.regsAllocated ≤ a'.regsAllocated) :
    a'.Permanent r := by
  rcases h with ⟨i, hi, hr⟩
  exact ⟨i, by omega, hr⟩

theorem not_permanent_of_alloc (h : a.alloc = some (r, a')) : ¬a.Permanent r := by
  rintro ⟨i, hi, hr⟩
  rcases alloc_eq_some h with ⟨hget, _, _, _⟩
  have hlt : i < kAllocatableRegisters.length := (List.getElem?_eq_some_iff.mp hr).1
  have heq := (List.getElem?_inj hlt nodup_kAllocatableRegisters).mp (hr.trans hget.symm)
  omega

end Allocator

namespace Translator

variable {enableRegMapping : Bool} {t t' : Translator} {reg : GuestReg}

variable {code : List HostInsn}

theorem loadToTemp_cases {result : Option Register} (h : t.loadToTemp reg = (result, code, t'))
    (hs' : t'.success = true) :
    ∃ r a, t.gpAllocator.allocTemp = some (r, a) ∧ result = some r ∧ code = [.load r reg] ∧
      t' = { t with gpAllocator := a } := by
  unfold loadToTemp allocTempReg at h
  cases htemp : t.gpAllocator.allocTemp with
  | none =>
    rw [htemp] at h
    cases h
    cases hs'
  | some ra =>
    rw [htemp] at h
    cases h
    exact ⟨ra.1, ra.2, rfl, rfl, rfl, rfl⟩

theorem getReg_cases (hs : t.success = true) {result : Option Register}
    (h : t.getReg enableRegMapping reg = (result, code, t')) (hs' : t'.success = true) :
    (∃ r, (t.gpMaintainer reg).reg = some r ∧ result = some r ∧ code = [] ∧ t' = t) ∨
      (∃ r a, enableRegMapping = true ∧ (t.gpMaintainer reg).reg = none ∧
        t.gpAllocator.alloc = some (r, a) ∧ result = some r ∧ code = [.load r reg] ∧
        t' = t.map reg r a) ∨ ∃ r a, (enableRegMapping = false ∨ (t.gpMaintainer reg).reg = none) ∧
        t.gpAllocator.allocTemp = some (r, a) ∧ result = some r ∧ code = [.load r reg] ∧
        t' = { t with gpAllocator := a } := by
  unfold getReg at h
  rw [if_neg (by simp [hs])] at h
  cases hmapping : enableRegMapping with
  | false =>
    rw [hmapping] at h
    rcases loadToTemp_cases h hs' with ⟨r, a, hrest⟩
    exact Or.inr (Or.inr ⟨r, a, Or.inl rfl, hrest⟩)
  | true =>
    rw [hmapping, if_pos rfl] at h
    unfold getMappedRegisterOrMap at h
    cases hreg : (t.gpMaintainer reg).reg with
    | some r =>
      simp only [hreg, hs, Bool.true_eq_false, if_false, Bool.false_eq_true] at h
      cases h
      exact Or.inl ⟨r, rfl, rfl, rfl, rfl⟩
    | none =>
      cases hall : t.gpAllocator.alloc with
      | some ra =>
        have hmap : (t.map reg ra.1 ra.2).success = true := hs
        simp only [hreg, hall, hmap, Bool.true_eq_false, if_false, if_true] at h
        cases h
        exact Or.inr (Or.inl ⟨ra.1, ra.2, rfl, rfl, rfl, rfl, rfl, rfl⟩)
      | none =>
        simp only [hreg, hall, if_true] at h
        have hback : { t with success := true } = t := by
          cases t
          simp only at hs
          rw [hs]
        rw [hback] at h
        rcases loadToTemp_cases h hs' with ⟨r, a, hrest⟩
        exact Or.inr (Or.inr ⟨r, a, Or.inr rfl, hrest⟩)

theorem setReg_cases (hs : t.success = true) {value : Register}
    (h : t.setReg enableRegMapping reg value = (code, t')) :
    (∃ r, (t.gpMaintainer reg).reg = some r ∧ code = [.move r value] ∧ t' = t.noticeModified reg) ∨
      (∃ r a, enableRegMapping = true ∧ (t.gpMaintainer reg).reg = none ∧
        t.gpAllocator.alloc = some (r, a) ∧ code = [.move r value] ∧
        t' = (t.map reg r a).noticeModified reg) ∨
      ((enableRegMapping = false ∨ (t.gpMaintainer reg).reg = none) ∧
        code = [.store reg value] ∧ t' = t) := by
  unfold setReg at h
  rw [if_neg (by simp [hs])] at h
  cases hmapping : enableRegMapping with
  | false =>
    rw [hmapping] at h
    cases h
    exact Or.inr (Or.inr ⟨Or.inl rfl, rfl, rfl⟩)
  | true =>
    rw [hmapping, if_pos rfl] at h
    unfold getMappedRegisterOrMap at h
    cases hreg : (t.gpMaintainer reg).reg with
    | some r =>
      simp only [hreg, hs, Bool.true_eq_false, if_false] at h
      cases h
      exact Or.inl ⟨r, rfl, rfl, rfl⟩
    | none =>
      cases hall : t.gpAllocator.alloc with
      | some ra =>
        have hmap : (t.map reg ra.1 ra.2).success = true := hs
        simp only [hreg, hall, hmap, Bool.true_eq_false, if_false] at h
        cases h
        exact Or.inr (Or.inl ⟨ra.1, ra.2, rfl, rfl, rfl, rfl, rfl⟩)
      | none =>
        simp only [hreg, hall, if_true] at h
        cases h
        refine Or.inr (Or.inr ⟨Or.inr rfl, rfl, ?_⟩)
        cases t
        simp only at hs
        rw [hs]

end Translator

/-! ### Coherence -/

section

variable {W : Type} {enableRegMapping : Bool} {c c' : Config W}

def Config.host (c : Config W) (i : GuestReg) : Option Register :=
  (c.translator.gpMaintainer i).reg

structure Coherent (enableRegMapping : Bool) (c : Config W) : Prop where
  success : c.translator.success = true
  disabled : enableRegMapping = false → ∀ i, c.host i = none
  permanent : ∀ {i r}, c.host i = some r → c.translator.gpAllocator.Permanent r
  injective : ∀ {i j r}, c.host i = some r → c.host j = some r → i = j
  mapped : ∀ {i r}, c.host i = some r → c.machine.regs r = c.last i
  modified : ∀ {i}, (c.translator.gpMaintainer i).modified = true → ∃ r, c.host i = some r
  clean : ∀ {i}, (c.translator.gpMaintainer i).modified = false → c.machine.x i = c.last i
  handedOut : ∀ r ∈ c.handedOut,
    Allocator.AmongLast c.translator.gpAllocator.maxTempRegsAllocated r

theorem coherent_start (m : Machine W) : Coherent enableRegMapping (Config.start m) where
  success := rfl
  disabled := fun _ _ => rfl
  permanent := fun h => by cases h
  injective := fun h => by cases h
  mapped := fun h => by cases h
  modified := fun h => by cases h
  clean := fun _ => rfl
  handedOut := fun r h => by cases h

theorem Coherent.clean_of_unmapped (hc : Coherent enableRegMapping c) {i : GuestReg}
    (h : c.host i = none) : c.machine.x i = c.last i := by
  refine hc.clean (Bool.eq_false_iff.mpr fun hmod => ?_)
  rcases hc.modified hmod with ⟨r, hr⟩
  rw [h] at hr
  cases hr

variable {r : Register} {a : Allocator} {reg : GuestReg}

section

variable (hc : Coherent enableRegMapping c)
include hc

theorem Coherent.notMapped {n : Nat} (h : Allocator.AmongLast n r)
    (hn : n ≤ c.translator.gpAllocator.maxTempRegsAllocated) (i : GuestReg) : c.host i ≠ some r :=
  fun hr => Allocator.not_amongLast_of_permanent _ (hc.permanent hr) (h.mono hn)

theorem Coherent.of_temps {m : Machine W} {handedOut : List Register}
    (hregs : a.regsAllocated = c.translator.gpAllocator.regsAllocated)
    (hm : ∀ i r, c.host i = some r → m.regs r = c.machine.regs r) (hx : m.x = c.machine.x)
    (hout : ∀ r ∈ handedOut, Allocator.AmongLast a.maxTempRegsAllocated r) :
    Coherent enableRegMapping
      ⟨{ c.translator with gpAllocator := a }, m, c.last, handedOut⟩ where
  success := hc.success
  disabled := hc.disabled
  permanent := fun h => (hc.permanent h).mono (Nat.le_of_eq hregs.symm)
  injective := fun h => hc.injective h
  mapped := fun {i r} h => (hm i r h).trans (hc.mapped h)
  modified := fun h => hc.modified h
  clean := fun {i} h => (congrFun hx i).trans (hc.clean h)
  handedOut := hout

/-- A guest register is mapped to a new host register, or was mapped before, and
    the host register gets its value. -/
theorem Coherent.of_map (reg : GuestReg) (modified : Bool) (v : Word)
    (henabl : enableRegMapping = true) (hr : a.Permanent r)
    (hregs : c.translator.gpAllocator.regsAllocated ≤ a.regsAllocated)
    (hmax : a.maxTempRegsAllocated = c.translator.gpAllocator.maxTempRegsAllocated)
    (hoth : ∀ i, i ≠ reg → c.host i ≠ some r) (hclean : modified = false → c.machine.x reg = v) :
    Coherent enableRegMapping ⟨⟨a, update c.translator.gpMaintainer reg ⟨some r, modified⟩,
          c.translator.success⟩,
        { c.machine with regs := update c.machine.regs r v },
        update c.last reg v, c.handedOut⟩ := by
  have hhost : ∀ {i r'}, i ≠ reg → (update c.translator.gpMaintainer reg
      ⟨some r, modified⟩ i).reg = some r' → c.host i = some r' := by
    intro i r' hi h
    rwa [update_of_ne hi] at h
  have hself : ∀ {r'}, (update c.translator.gpMaintainer reg
      ⟨some r, modified⟩ reg).reg = some r' → r' = r := by
    intro r' h
    rw [update_self] at h
    cases h
    rfl
  constructor
  · exact hc.success
  · intro hdis
    rw [henabl] at hdis
    cases hdis
  · intro i r' h
    by_cases hi : i = reg
    · subst hi
      rw [hself h]
      exact hr
    · exact (hc.permanent (hhost hi h)).mono hregs
  · intro i j r' h h'
    by_cases hi : i = reg
    · subst hi
      by_cases hj : j = i
      · exact hj.symm
      · rw [hself h] at h'
        exact absurd (hhost hj h') (hoth j hj)
    · by_cases hj : j = reg
      · subst hj
        rw [hself h'] at h
        exact absurd (hhost hi h) (hoth i hi)
      · exact hc.injective (hhost hi h) (hhost hj h')
  · intro i r' h
    by_cases hi : i = reg
    · subst hi
      rw [hself h]
      simp
    · have hne : r' ≠ r := by
        rintro rfl
        exact hoth i hi (hhost hi h)
      simp only [update_of_ne hi, update_of_ne hne]
      exact hc.mapped (hhost hi h)
  · intro i h
    by_cases hi : i = reg
    · subst hi
      exact ⟨r, by simp [Config.host]⟩
    · simp only [update_of_ne hi] at h
      rcases hc.modified h with ⟨r', hr'⟩
      exact ⟨r', by simpa only [Config.host, update_of_ne hi] using hr'⟩
  · intro i h
    by_cases hi : i = reg
    · subst hi
      simp only [update_self] at h ⊢
      exact hclean h
    · simp only [update_of_ne hi] at h ⊢
      exact hc.clean h
  · intro r' h
    simp only [hmax]
    exact hc.handedOut r' h

theorem Coherent.of_store (hreg : c.host reg = none) (v : Word) : Coherent enableRegMapping { c with
        machine := { c.machine with x := update c.machine.x reg v }
        last := update c.last reg v } where
  success := hc.success
  disabled := hc.disabled
  permanent := hc.permanent
  injective := hc.injective
  mapped := by
    intro i r h
    have hi : i ≠ reg := by
      rintro rfl
      rw [show c.host i = some r from h] at hreg
      cases hreg
    simp only [update_of_ne hi]
    exact hc.mapped h
  modified := hc.modified
  clean := by
    intro i h
    by_cases hi : i = reg
    · subst hi
      simp
    · simp only [update_of_ne hi]
      exact hc.clean h
  handedOut := hc.handedOut

theorem Coherent.not_host_of_alloc (h : c.translator.gpAllocator.alloc = some (r, a))
    (i : GuestReg) : c.host i ≠ some r :=
  fun hi => Allocator.not_permanent_of_alloc h (hc.permanent hi)

theorem Coherent.not_host_of_allocTemp (h : c.translator.gpAllocator.allocTemp = some (r, a))
    (i : GuestReg) : c.host i ≠ some r := by
  rcases Allocator.allocTemp_eq_some h with ⟨hlast, hregs, hmax⟩
  intro hi
  have hperm : a.Permanent r := (hc.permanent hi).mono (Nat.le_of_eq hregs.symm)
  exact a.not_amongLast_of_permanent hperm (hlast.mono (by omega))

theorem Coherent.handedOut_allocTemp (h : c.translator.gpAllocator.allocTemp = some (r, a)) :
    ∀ r' ∈ r :: c.handedOut, Allocator.AmongLast a.maxTempRegsAllocated r' := by
  rcases Allocator.allocTemp_eq_some h with ⟨hlast, _, hmax⟩
  intro r' hr'
  rcases mem_cons.mp hr' with rfl | hr'
  · exact hlast.mono (by omega)
  · exact (hc.handedOut r' hr').mono (by omega)

theorem coherent_getReg (h : step enableRegMapping c (.getReg reg) = some c') :
    Coherent enableRegMapping c' := by
  unfold step at h
  rcases hget : c.translator.getReg enableRegMapping reg with ⟨result, code, t⟩
  simp only [hget] at h
  by_cases hs : t.success = true
  · rw [if_pos hs] at h
    cases h
    rcases Translator.getReg_cases hc.success hget hs with
      ⟨r, hr, rfl, rfl, rfl⟩ | ⟨r, a, henabl, hr, hall, rfl, rfl, rfl⟩ |
        ⟨r, a, hr, htemp, rfl, rfl, rfl⟩
    · rw [hr]
      exact hc
    · rcases Allocator.alloc_eq_some hall with ⟨hget, hregs, _, hmax⟩
      have hmod : (c.translator.gpMaintainer reg).modified = false := by
        refine Bool.eq_false_iff.mpr fun hmod => ?_
        rcases hc.modified hmod with ⟨r', hr'⟩
        rw [Config.host, hr] at hr'
        cases hr'
      have hnew := hc.of_map reg false (c.machine.x reg) henabl ⟨_, by omega, hget⟩ (by omega)
        hmax (fun i _ => hc.not_host_of_alloc hall i) (fun _ => rfl)
      simpa [Translator.map, hmod, Machine.run, HostInsn.exec, hc.clean hmod] using hnew
    · have hunm : (c.translator.gpMaintainer reg).reg = none := by
        rcases hr with hdis | hr
        · exact hc.disabled hdis reg
        · exact hr
      simp only [hunm]
      refine hc.of_temps (Allocator.allocTemp_eq_some htemp).2.1 (fun i r' hi => ?_) rfl
        (hc.handedOut_allocTemp htemp)
      refine update_of_ne ?_ _ _
      rintro rfl
      exact hc.not_host_of_allocTemp htemp i hi
  · rw [if_neg hs] at h
    cases h

theorem coherent_setReg {value : Register}
    (h : step enableRegMapping c (.setReg reg value) = some c') : Coherent enableRegMapping c' := by
  unfold step at h
  rcases hset : c.translator.setReg enableRegMapping reg value with ⟨code, t⟩
  simp only [hset] at h
  by_cases hs : t.success = true
  · rw [if_pos hs] at h
    cases h
    rcases Translator.setReg_cases hc.success hset with
      ⟨r, hr, rfl, rfl⟩ | ⟨r, a, henabl, hr, hall, rfl, rfl⟩ | ⟨hr, rfl, rfl⟩
    · have henabl : enableRegMapping = true := by
        by_contra hdis
        have hnone := hc.disabled (Bool.eq_false_iff.mpr hdis) reg
        rw [Config.host, hr] at hnone
        cases hnone
      -- The register is mapped to the same one again.
      have hoth : ∀ i, i ≠ reg → c.host i ≠ some r := fun i hi hi' => hi (hc.injective hi' hr)
      have hnew := hc.of_map reg true (c.machine.regs value) henabl (hc.permanent hr)
        (Nat.le_refl _) rfl hoth (fun h => by cases h)
      simpa [Translator.noticeModified, hr, Machine.run, HostInsn.exec] using hnew
    · rcases Allocator.alloc_eq_some hall with ⟨hget, hregs, _, hmax⟩
      have hnew := hc.of_map reg true (c.machine.regs value) henabl ⟨_, by omega, hget⟩
        (by omega) hmax (fun i _ => hc.not_host_of_alloc hall i) (fun h => by cases h)
      simpa [Translator.map, Translator.noticeModified, Machine.run, HostInsn.exec] using hnew
    · refine hc.of_store ?_ (c.machine.regs value)
      rcases hr with hdis | hr
      · exact hc.disabled hdis reg
      · exact hr
  · rw [if_neg hs] at h
    cases h

theorem coherent_allocTempReg (h : step enableRegMapping c .allocTempReg = some c') :
    Coherent enableRegMapping c' := by
  unfold step Translator.allocTempReg at h
  cases htemp : c.translator.gpAllocator.allocTemp with
  | none =>
    simp only [htemp, Bool.false_eq_true, if_false] at h
    cases h
  | some ra =>
    simp only [htemp] at h
    rw [if_pos hc.success] at h
    cases h
    exact hc.of_temps (Allocator.allocTemp_eq_some htemp).2.1 (fun _ _ _ => rfl) rfl
      (hc.handedOut_allocTemp htemp)

end

theorem coherent_step (c : Config W) (op : Op W) (c' : Config W) (hleg : Legal c op)
    (hc : Coherent enableRegMapping c) (h : step enableRegMapping c op = some c') :
    Coherent enableRegMapping c' := by
  cases op with
  | getReg reg => exact coherent_getReg hc h
  | setReg reg value => exact coherent_setReg hc h
  | allocTempReg => exact coherent_allocTempReg hc h
  | freeTempRegs =>
    cases h
    exact hc.of_temps rfl (fun _ _ _ => rfl) rfl hc.handedOut
  | compute dst f =>
    cases h
    refine hc.of_temps rfl (fun i r hi => ?_) rfl hc.handedOut
    refine update_of_ne ?_ _ _
    rintro rfl
    rcases hleg with hpool | hlast
    · rcases hc.permanent hi with ⟨j, _, hj⟩
      exact hpool (mem_of_getElem? hj)
    · exact hc.notMapped hlast c.translator.gpAllocator.temp_le i hi
  | exitRegion taken =>
    unfold step at h
    dsimp only at h
    split_ifs at h
    cases h
    exact hc

/-! ### Exits -/

theorem run_append (m : Machine W) (code code' : List HostInsn) :
    m.run (code ++ code') = (m.run code).run code' :=
  foldl_append

theorem run_stores (hc : Coherent enableRegMapping c) (regs : List GuestReg) (m : Machine W)
    (hm : m.regs = c.machine.regs) (i : GuestReg) : (m.run (regs.flatMap fun i =>
        if (c.translator.gpMaintainer i).modified then
          (c.translator.gpMaintainer i).reg.toList.map (.store i ·) else [])).x i =
      if i ∈ regs ∧ (c.translator.gpMaintainer i).modified = true then c.last i else m.x i := by
  induction regs generalizing m with
  | nil => simp [Machine.run]
  | cons j regs ih =>
    rw [flatMap_cons, run_append]
    by_cases hmod : (c.translator.gpMaintainer j).modified = true
    · rcases hc.modified hmod with ⟨r, hr⟩
      have hreg : (c.translator.gpMaintainer j).reg = some r := hr
      have hstore : m.run (if (c.translator.gpMaintainer j).modified then
          (c.translator.gpMaintainer j).reg.toList.map (.store j ·) else []) =
            { m with x := update m.x j (c.last j) } := by
        rw [if_pos hmod, hreg, ← hc.mapped hr, ← hm]
        rfl
      rw [hstore, ih { m with x := update m.x j (c.last j) } hm]
      by_cases hi : i = j
      · subst hi
        simp [hmod]
      · simp [hi]
    · rw [if_neg hmod, show m.run [] = m from rfl, ih m hm]
      by_cases hi : i = j
      · subst hi
        simp [hmod]
      · simp [hi]

theorem x_storeMappedRegs (hc : Coherent enableRegMapping c) :
    (c.machine.run (c.translator.storeMappedRegs enableRegMapping)).x = c.last := by
  funext i
  cases henabl : enableRegMapping with
  | false => exact hc.clean_of_unmapped (hc.disabled henabl i)
  | true =>
    unfold Translator.storeMappedRegs
    rw [if_pos rfl, run_stores hc _ c.machine rfl]
    by_cases hmod : (c.translator.gpMaintainer i).modified = true
    · rw [if_pos ⟨mem_finRange i, hmod⟩]
    · rw [if_neg fun h => hmod h.2]
      exact hc.clean (Bool.eq_false_iff.mpr hmod)

theorem regs_getReg (hc : Coherent enableRegMapping c) {result : Option Register}
    {code : List HostInsn} {t : Translator}
    (h : c.translator.getReg enableRegMapping reg = (result, code, t)) (hs : t.success = true) :
    ∃ r, result = some r ∧ (c.machine.run code).regs r = c.last reg := by
  rcases Translator.getReg_cases hc.success h hs with
    ⟨r, hr, rfl, rfl, rfl⟩ | ⟨r, a, henabl, hr, _, rfl, rfl, rfl⟩ |
      ⟨r, a, hr, _, rfl, rfl, rfl⟩
  · exact ⟨r, rfl, hc.mapped hr⟩
  · refine ⟨r, rfl, ?_⟩
    rw [← hc.clean_of_unmapped hr]
    exact update_self _ _ _
  · refine ⟨r, rfl, ?_⟩
    have hunm : c.host reg = none := by
      rcases hr with hdis | hr
      · exact hc.disabled hdis reg
      · exact hr
    rw [← hc.clean_of_unmapped hunm]
    exact update_self _ _ _

/-- At each point that a run through a region comes to: a read returns a register with the value
    that was last set on the way, or that was in memory at the start; an exit there leaves all these
    values in memory, where each register to write back is mapped; and no temporary that was handed
    out is mapped. -/
theorem registers_coherent (enableRegMapping : Bool) (m : Machine W) (ops : List (Op W))
    (hlegal : Lib.MeetsAlong (step enableRegMapping) Legal (Config.start m) ops)
    (c : Config W) (hrun : Lib.run (step enableRegMapping) (Config.start m) ops = some c) :
    (∀ reg result code t, c.translator.getReg enableRegMapping reg = (result, code, t) →
        t.success = true → ∃ r, result = some r ∧ (c.machine.run code).regs r = c.last reg) ∧
      (∀ i, (c.translator.gpMaintainer i).modified = true →
        ((c.translator.gpMaintainer i).reg).isSome = true) ∧
      (c.machine.run (c.translator.storeMappedRegs enableRegMapping)).x = c.last ∧
      ∀ r ∈ c.handedOut, ∀ i, (c.translator.gpMaintainer i).reg ≠ some r := by
  have hc := Lib.run_preserves_of _ _ _ coherent_step ops _ c hlegal (coherent_start m) hrun
  refine ⟨fun _ _ _ _ h hs => regs_getReg hc h hs, fun i hi => ?_, x_storeMappedRegs hc, ?_⟩
  · rcases hc.modified hi with ⟨r, hr⟩
    exact Option.isSome_of_eq_some hr
  · intro r hr i
    exact hc.notMapped (hc.handedOut r hr) (Nat.le_refl _) i

instance (c : Config W) (op : Op W) : Decidable (Legal c op) :=
  match op with
  | .compute dst _ =>
    inferInstanceAs (Decidable (dst ∉ kAllocatableRegisters ∨ ∃ i,
      i < c.translator.gpAllocator.tempRegsAllocated ∧ i < kNumRegister ∧
        kAllocatableRegisters[kNumRegister - 1 - i]? = some dst))
  | .getReg _ | .setReg _ _ | .allocTempReg | .freeTempRegs | .exitRegion _ => isTrue trivial

/-- `x0` becomes the sum of `x1` and seven, and the region is left if `x1` is zero. -/
def addSeven : List (Op Unit) :=
  [.getReg 1, .allocTempReg, .compute .rdx fun regs w => (regs .rbx + 7, w), .setReg 0 .rdx,
    .freeTempRegs, .exitRegion fun regs _ => regs .rbx == 0]

def numberedMachine : Machine Unit := ⟨fun _ => 0, fun i => BitVec.ofNat 64 i, ()⟩

theorem registers_coherent_addSeven :
    ∃ c, Lib.run (step true) (Config.start numberedMachine) addSeven = some c ∧
      c.machine.x 0 = 0 ∧ (c.machine.run (c.translator.storeMappedRegs true)).x 0 = 8 := by
  refine ⟨_, rfl, rfl, ?_⟩
  rw [(registers_coherent true numberedMachine addSeven (by decide) _ rfl).2.2.1]
  rfl

end

end Berberis.LiteTranslator.X86
