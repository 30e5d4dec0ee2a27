import Berberis.Backend.InsnFoldingSemantics

/-!
# Folding of Guest Context Reads Preserves Meaning

What is known of the definitions of registers holds all along a block: a register
has what was loaded into it, as long as nothing was put, and a copy has what its
source has, as long as the source was not defined again. So an operand in the
guest context is the same as the register in place of which it is. Two folds are
not like that: of a get of two bytes, as the operand in memory has more, and of a
bit test with an offset in a register, as in memory it goes beyond the operand.

## Theorems

* `Tracks.loadedBy`, `Tracks.exists_of_loadedBy`: The pass finds the gets that
  registers have their values from.
* `foldInsns_run`: The pass ends, and a block does the same before and after it, if
  it has no such folds.
* `foldInsns_bitTest_differs`: A bit test beyond the operand.
-/

namespace Berberis.Backend.InsnFolding

open Lib DefMap Option

/-! ### What definitions are known -/

namespace DefMap

variable {layout : ContextLayout} {m m' : DefMap} {insn : Insn}

theorem get_of_isVReg {r : MachineReg} {d : Def} (h : m.get r = some d) : r.isVReg = true := by
  unfold get at h
  split at h
  · assumption
  · cases h

theorem initial_get (r : MachineReg) : initial.get r = none := by
  unfold get initial
  split <;> rfl

theorem set_get (m : DefMap) (reg r : MachineReg) (insn : Insn) (pos : Nat) :
    (m.set reg insn pos).get r =
      if reg = r ∧ r.isVReg = true then some ⟨insn, m.index, pos⟩ else m.get r := by
  unfold set get
  by_cases hreg : reg.isVReg = true
  · rw [if_pos hreg]
    by_cases heq : reg = r
    · subst heq
      simp [hreg]
    · simp [heq, Function.update_of_ne (Ne.symm heq)]
  · have hne : ¬(reg = r ∧ r.isVReg = true) := by
      rintro ⟨rfl, hr⟩
      exact hreg hr
    rw [if_neg hreg, if_neg hne]

theorem mapDefReg_spec {operand : RegOperand} {op : Nat}
    (h : m.mapDefReg insn operand op = some m') :
    m'.index = m.index ∧ m'.lastContextWriteInsn = m.lastContextWriteInsn ∧ ∀ r, m'.get r =
        if operand.isDef = true ∧ operand.reg = r ∧ r.isVReg = true then some ⟨insn, m.index, op⟩
        else m.get r := by
  unfold mapDefReg at h
  dsimp only at h
  generalize (if operand.isFlags = true ∧ m.flagsReg = kInvalidMachineReg then operand.reg
    else m.flagsReg) = flagsReg at h
  split at h
  · cases h
  · cases h
    by_cases hdef : operand.isDef = true
    · rw [if_pos hdef]
      refine ⟨?_, ?_, fun r => ?_⟩
      · unfold set
        split <;> rfl
      · unfold set
        split <;> rfl
      · rw [set_get]
        simp only [hdef, true_and]
        rfl
    · rw [if_neg hdef]
      refine ⟨rfl, rfl, fun r => ?_⟩
      rw [if_neg fun h => hdef h.1]
      rfl

theorem mapOperands_spec {operands : List RegOperand} {op : Nat}
    (h : mapOperands insn operands op m = some m') :
    m'.index = m.index ∧ m'.lastContextWriteInsn = m.lastContextWriteInsn ∧
      ∀ r d, m'.get r = some d →
        ((∃ operand ∈ operands, operand.isDef = true ∧ operand.reg = r) ∧ d.insn = insn ∧
            d.index = m.index) ∨
          ((¬∃ operand ∈ operands, operand.isDef = true ∧ operand.reg = r) ∧ m.get r = some d) := by
  induction operands generalizing op m with
  | nil =>
    cases h
    exact ⟨rfl, rfl, fun r d hget => Or.inr ⟨by simp, hget⟩⟩
  | cons operand rest ih =>
    rw [mapOperands] at h
    split at h
    · next m₁ hm₁ =>
        rcases ih h with ⟨hidx, hlast, hdefs⟩
        rcases mapDefReg_spec hm₁ with ⟨hidx₁, hlast₁, hget₁⟩
        refine ⟨hidx.trans hidx₁, hlast.trans hlast₁, fun r d hget => ?_⟩
        simp only [List.mem_cons, exists_eq_or_imp]
        rcases hdefs r d hget with ⟨hmem, hinsn, hd⟩ | ⟨hmem, hget'⟩
        · exact Or.inl ⟨Or.inr hmem, hinsn, hd.trans hidx₁⟩
        · -- A later operand does not define the register.
          have hr := get_of_isVReg hget'
          rw [hget₁] at hget'
          split at hget'
          · next hop =>
              cases hget'
              exact Or.inl ⟨Or.inl ⟨hop.1, hop.2.1⟩, rfl, rfl⟩
          · next hop =>
              refine Or.inr ⟨?_, hget'⟩
              rintro (hop' | hmem')
              · exact hop ⟨hop'.1, hop'.2, hr⟩
              · exact hmem hmem'
    · cases h

theorem processInsn_spec (h : m.processInsn layout insn = some m') : m'.index = m.index + 1 ∧
      m'.lastContextWriteInsn =
        (if insn.isCPUStatePut layout then m.index else m.lastContextWriteInsn) ∧
      ∀ r d, m'.get r = some d → (insn.Defines r ∧ d.insn = insn ∧ d.index = m.index) ∨
          (¬insn.Defines r ∧ m.get r = some d) := by
  unfold processInsn mapDefRegs at h
  rw [map_eq_some_iff] at h
  rcases h with ⟨m₁, hm₁, rfl⟩
  rcases mapOperands_spec hm₁ with ⟨hidx, hlast, hdefs⟩
  split_ifs at hidx hlast hdefs ⊢
  · exact ⟨congrArg (· + 1) hidx, hlast, hdefs⟩
  · exact ⟨congrArg (· + 1) hidx, hlast, hdefs⟩

theorem mapOperands_get {operands : List RegOperand} {op : Nat}
    (h : mapOperands insn operands op m = some m') (r : MachineReg) :
    ((∃ operand ∈ operands, operand.isDef = true ∧ operand.reg = r) → r.isVReg = true →
      (m'.get r).isSome) ∧
    ((¬∃ operand ∈ operands, operand.isDef = true ∧ operand.reg = r) → m'.get r = m.get r) := by
  induction operands generalizing op m with
  | nil =>
    cases h
    exact ⟨by simp, fun _ => rfl⟩
  | cons operand rest ih =>
    rw [mapOperands] at h
    split at h
    · next m₁ hm₁ =>
        have hget₁ := (mapDefReg_spec hm₁).2.2 r
        rcases ih h with ⟨hsome, hsame⟩
        simp only [List.mem_cons, exists_eq_or_imp, not_or]
        refine ⟨fun hdef hr => ?_, fun hdef => ?_⟩
        · by_cases hrest : ∃ operand ∈ rest, operand.isDef = true ∧ operand.reg = r
          · exact hsome hrest hr
          · have hop := hdef.resolve_right hrest
            rw [hsame hrest, hget₁, if_pos ⟨hop.1, hop.2, hr⟩]
            rfl
        · rw [hsame hdef.2, hget₁, if_neg fun hop => hdef.1 ⟨hop.1, hop.2.1⟩]
    · cases h

theorem get_processInsn (h : m.processInsn layout insn = some m') (r : MachineReg) :
    (insn.Defines r → r.isVReg = true → (m'.get r).isSome) ∧
      (¬insn.Defines r → m'.get r = m.get r) := by
  unfold processInsn mapDefRegs at h
  rw [map_eq_some_iff] at h
  rcases h with ⟨m₁, hm₁, rfl⟩
  have hget := mapOperands_get hm₁ r
  split_ifs at hget
  · exact hget
  · exact hget

/-- A register was not defined by the instruction, if its definition is one
    from before an earlier index. -/
theorem getBefore_processInsn (h : m.processInsn layout insn = some m') {r : MachineReg}
    {index : Nat} {d : Def} (hidx : index ≤ m.index) (hd : m'.getBefore r index = some d) :
    ¬insn.Defines r ∧ m.getBefore r index = some d := by
  rcases index_of_getBefore hd with ⟨hget, hlt⟩
  rcases (processInsn_spec h).2.2 r d hget with ⟨_, _, hnew⟩ | ⟨hdef, hold⟩
  · omega
  · refine ⟨hdef, ?_⟩
    unfold getBefore
    rw [hold]
    exact if_neg (by omega)

/-- A copy holds what its source holds, as long as the source is not defined again. -/
theorem copied_processInsn {β : Type} {value value' : MachineReg → β}
    (h : m.processInsn layout insn = some m')
    (hidx : ∀ {r d}, m.get r = some d → d.index < m.index)
    (hcop : ∀ {r d d'}, m.get r = some d → d.insn.isPseudoCopy = true →
      m.getBefore (d.insn.regAt 1) d.index = some d' → value r = value (d.insn.regAt 1))
    (hkept : ∀ r, ¬insn.Defines r → value' r = value r)
    (hcopy : insn.isPseudoCopy = true → ∀ r, insn.Defines r → value' r = value (insn.regAt 1))
    {r : MachineReg} {d d' : Def} (hget : m'.get r = some d) (hd : d.insn.isPseudoCopy = true)
    (hbef : m'.getBefore (d.insn.regAt 1) d.index = some d') :
    value' r = value' (d.insn.regAt 1) := by
  rcases (processInsn_spec h).2.2 r d hget with ⟨hdef, hinsn, hnew⟩ | ⟨hdef, hold⟩
  · -- The copy itself: its source is not its target.
    rw [hinsn] at hd hbef ⊢
    rw [hkept _ (getBefore_processInsn h hnew.le hbef).1]
    exact hcopy hd r hdef
  · rcases getBefore_processInsn h (hidx hold).le hbef with ⟨hsrc, hbef'⟩
    rw [hkept _ hdef, hkept _ hsrc]
    exact hcop hold hd hbef'

end DefMap

/-! ### Where values come from -/

section

variable (layout : ContextLayout) (before : List Insn)

/-- From an index on nothing defines the register. -/
def Kept (i : Nat) (r : MachineReg) : Prop :=
  ∀ j insn, i ≤ j → before[j]? = some insn → ¬insn.Defines r

def NoPutAfter (i : Nat) : Prop :=
  ∀ j insn, i < j → before[j]? = some insn → insn.isCPUStatePut layout = false

/-- A register has what a get has loaded, nothing was put since, and if it has that by copies,
    their sources were not defined again. -/
inductive LoadedBy : MachineReg → MachineInsn → Prop
  | get (i : Nat) (r : MachineReg) (get : MachineInsn) (flags : Option MachineReg)
      (hr : r.isVReg = true) (hi : before[i]? = some (.machine get flags))
      (hread : layout.isCPUStateGet get = true) (hdef : (Insn.machine get flags).Defines r)
      (hkept : Kept before (i + 1) r) (hput : NoPutAfter layout before i) : LoadedBy r get
  | copy (i : Nat) (r : MachineReg) (copy : Insn) (get : MachineInsn) (hr : r.isVReg = true)
      (hi : before[i]? = some copy) (hcopy : copy.isPseudoCopy = true) (hdef : copy.Defines r)
      (hkept : Kept before (i + 1) r) (hsource : Kept before i (copy.regAt 1))
      (hloaded : LoadedBy (copy.regAt 1) get) : LoadedBy r get

/-- The map has the latest definitions. -/
structure DefMap.Tracks (m : DefMap) : Prop where
  index_eq : m.index = before.length
  latest : ∀ {r d}, m.get r = some d → r.isVReg = true ∧ (∃ insn, before[d.index]? = some insn ∧
    Replaces insn d.insn ∧ insn.Defines r) ∧ Kept before (d.index + 1) r
  found : ∀ {r insn}, r.isVReg = true → insn ∈ before → insn.Defines r → (m.get r).isSome
  writes : ∀ i, m.lastContextWriteInsn ≤ i ↔ NoPutAfter layout before i

variable {layout before} {m m' : DefMap} {insn insn' : Insn} {r : MachineReg}

theorem LoadedBy.exists_mem {get : MachineInsn} (h : LoadedBy layout before r get) :
    layout.isCPUStateGet get = true ∧ ∃ flags, Insn.machine get flags ∈ before := by
  induction h with
  | get i r get flags hr hi hread => exact ⟨hread, flags, List.mem_of_getElem? hi⟩
  | copy i r copy get hr hi hcopy hdef hkept hsource hloaded ih => exact ih

theorem getElem?_concat {i : Nat} {x : Insn} : (before ++ [insn])[i]? = some x ↔
    before[i]? = some x ∨ i = before.length ∧ x = insn := by
  rcases Nat.lt_trichotomy i before.length with hi | rfl | hi
  · rw [List.getElem?_append_left hi]
    exact ⟨Or.inl, fun h => h.resolve_right fun h => by omega⟩
  · simp [eq_comm]
  · rw [List.getElem?_eq_none (by simp; omega), List.getElem?_eq_none (by omega)]
    exact ⟨nofun, fun h => h.elim nofun fun h => by omega⟩

theorem forall_concat_iff {Q : Nat → Prop} {P : Insn → Prop} :
    (∀ j x, Q j → (before ++ [insn])[j]? = some x → P x) ↔
      (∀ j x, Q j → before[j]? = some x → P x) ∧ (Q before.length → P insn) := by
  simp only [getElem?_concat]
  constructor
  · exact fun h => ⟨fun j x hj hx => h j x hj (Or.inl hx), fun hi =>
      h _ insn hi (Or.inr ⟨rfl, rfl⟩)⟩
  · rintro ⟨hold, hnew⟩ j x hj (hx | ⟨rfl, rfl⟩)
    · exact hold j x hj hx
    · exact hnew hj

theorem kept_concat {i : Nat} : Kept (before ++ [insn]) i r ↔
    Kept before i r ∧ (i ≤ before.length → ¬insn.Defines r) := by
  unfold Kept
  exact forall_concat_iff

theorem noPutAfter_concat {i : Nat} : NoPutAfter layout (before ++ [insn]) i ↔
    NoPutAfter layout before i ∧
      (i < before.length → insn.isCPUStatePut layout = false) := by
  unfold NoPutAfter
  exact forall_concat_iff

theorem defines_arithmetic_iff {op : ArithmeticOp} {size : OperandSize} {dst src : Operand}
    {flags : MachineReg} : (Insn.arithmetic op size dst src flags).Defines r ↔
      op.writes = true ∧ dst = .reg r ∨ flags = r := by
  unfold Insn.Defines Insn.operands
  cases dst <;> cases src <;> simp [Operand.regOperands]

theorem Replaces.defines_iff (h : Replaces insn insn') : insn'.Defines r ↔ insn.Defines r := by
  cases h with
  | keep => rfl
  | source => rw [defines_arithmetic_iff, defines_arithmetic_iff]
  | read _ _ _ _ _ _ _ h => simp [defines_arithmetic_iff, h]

theorem Replaces.isCPUStatePut (h : Replaces insn insn') :
    insn'.isCPUStatePut layout = insn.isCPUStatePut layout := by
  cases h <;> rfl

/-- Only arithmetic instructions are replaced. -/
theorem Replaces.machine_iff {x : MachineInsn} {flags : Option MachineReg} :
    (Replaces (.machine x flags) insn ↔ insn = .machine x flags) ∧
      (Replaces insn (.machine x flags) ↔ insn = .machine x flags) :=
  ⟨⟨fun h => by cases h; rfl, fun h => h ▸ .keep _⟩, fun h => by cases h; rfl,
    fun h => h ▸ .keep _⟩

theorem exists_machine_of_isPseudoCopy (h : insn.isPseudoCopy = true) :
    ∃ x flags, insn = .machine x flags := by
  cases insn with
  | machine x flags => exact ⟨x, flags, rfl⟩
  | movlRegImm | arithmetic => cases h

theorem tracks_initial : initial.Tracks layout [] := by
  refine ⟨rfl, fun h => ?_, fun _ h => (nomatch h), fun i => ?_⟩
  · rw [initial_get] at h
    cases h
  · exact iff_of_true (Nat.zero_le i) fun _ _ _ h => nomatch h

theorem DefMap.Tracks.step (ht : m.Tracks layout before) (hrep : Replaces insn insn')
    (hm : m.processInsn layout insn' = some m') : m'.Tracks layout (before ++ [insn]) := by
  have hlen := ht.index_eq
  rcases processInsn_spec hm with ⟨hidx, hlast, hdefs⟩
  refine ⟨by simp [hidx, hlen], fun {r d} hget => ?_, fun {r x} hr hx hdef => ?_, fun i => ?_⟩
  · rcases hdefs r d hget with ⟨hdef, hinsn, hd⟩ | ⟨hdef, hold⟩
    · rw [hrep.defines_iff] at hdef
      have hlt : d.index = before.length := hd.trans hlen
      refine ⟨get_of_isVReg hget, ⟨insn, getElem?_concat.mpr (Or.inr ⟨hlt, rfl⟩), hinsn ▸ hrep,
        hdef⟩, kept_concat.mpr ⟨fun j x hj hx => ?_, fun h => by omega⟩⟩
      rw [List.getElem?_eq_none (by omega)] at hx
      cases hx
    · rw [hrep.defines_iff] at hdef
      rcases ht.latest hold with ⟨hr, ⟨x, hx, hrest⟩, hkept⟩
      exact ⟨hr, ⟨x, getElem?_concat.mpr (Or.inl hx), hrest⟩,
        kept_concat.mpr ⟨hkept, fun _ => hdef⟩⟩
  · rcases get_processInsn hm r with ⟨hnew, hsame⟩
    rw [hrep.defines_iff] at hnew hsame
    by_cases hinsn : insn.Defines r
    · exact hnew hinsn hr
    · rw [hsame hinsn]
      rcases List.mem_append.mp hx with hx | hx
      · exact ht.found hr hx hdef
      · rw [List.mem_singleton.mp hx] at hdef
        exact absurd hdef hinsn
  · rw [noPutAfter_concat, ← ht.writes, hlast, hrep.isCPUStatePut, hlen]
    have hle : m.lastContextWriteInsn ≤ before.length := by
      rw [ht.writes]
      intro j x hj hx
      rw [List.getElem?_eq_none (by omega)] at hx
      cases hx
    cases insn.isCPUStatePut layout with
    | true =>
      simp only [if_true, Bool.true_eq_false, imp_false]
      omega
    | false => simp

/-- What the pass finds behind copies is where the value comes from. -/
theorem DefMap.Tracks.loadedBy (ht : m.Tracks layout before) {d g : Def} {get : MachineInsn}
    {flags : Option MachineReg} (hd : m.get r = some d) (h : m.skipPseudoCopies d = some g)
    (hg : g.insn = .machine get flags) (hread : layout.isCPUStateGet get = true)
    (hact : m.lastContextWriteInsn ≤ g.index) : LoadedBy layout before r get := by
  -- On the index of the definition, as copies go back to earlier ones.
  induction hn : d.index using Nat.strong_induction_on generalizing r d with
  | _ n ih =>
    rcases ht.latest hd with ⟨hr, ⟨x, hx, hrep, hdef⟩, hkept⟩
    rw [skipPseudoCopies] at h
    split at h
    · next hcopy =>
        split at h
        · next d' hbef =>
            rcases index_of_getBefore hbef with ⟨hget', hlt⟩
            rcases exists_machine_of_isPseudoCopy hcopy with ⟨copy, fl, hd'⟩
            obtain rfl : x = d.insn := by
              rw [hd'] at hrep ⊢
              exact Replaces.machine_iff.2.mp hrep
            refine .copy d.index r d.insn get hr hx hcopy hdef hkept ?_
              (ih d'.index (by omega) hget' h rfl)
            exact fun j y hj hy => (ht.latest hget').2.2 j y (by omega) hy
        · cases h
    · cases h
      rw [hg] at hrep
      obtain rfl := Replaces.machine_iff.2.mp hrep
      exact .get g.index r get flags hr hx hread hdef hkept ((ht.writes _).mp hact)

theorem DefMap.Tracks.exists_get (ht : m.Tracks layout before) {i : Nat} (hr : r.isVReg = true)
    (hi : before[i]? = some insn) (hdef : insn.Defines r) (hkept : Kept before (i + 1) r) :
    ∃ d, m.get r = some d ∧ d.index = i ∧ Replaces insn d.insn := by
  rcases isSome_iff_exists.mp (ht.found hr (List.mem_of_getElem? hi) hdef) with ⟨d, hd⟩
  rcases ht.latest hd with ⟨-, ⟨x, hx, hrep, hdef'⟩, hkept'⟩
  have heq : d.index = i := by
    rcases Nat.lt_trichotomy d.index i with hlt | heq | hlt
    · exact absurd hdef (hkept' i insn hlt hi)
    · exact heq
    · exact absurd hdef' (hkept d.index x hlt hx)
  rw [heq, hi] at hx
  exact ⟨d, hd, heq, some.inj hx ▸ hrep⟩

theorem DefMap.Tracks.exists_of_loadedBy (ht : m.Tracks layout before) {get : MachineInsn}
    (h : LoadedBy layout before r get) : ∃ g flags, m.findNonPseudoCopyDef r = some g ∧
      g.insn = .machine get flags ∧ m.lastContextWriteInsn ≤ g.index := by
  induction h with
  | get i r get flags hr hi hread hdef hkept hput =>
    rcases ht.exists_get hr hi hdef hkept with ⟨d, hd, rfl, hrep⟩
    have hinsn := Replaces.machine_iff.1.mp hrep
    have hcopy : d.insn.isPseudoCopy = false := by
      rw [hinsn]
      unfold ContextLayout.isCPUStateGet at hread
      unfold Insn.isPseudoCopy
      cases hop : get.opcode <;> simp_all
    refine ⟨d, flags, ?_, hinsn, (ht.writes _).mpr hput⟩
    rw [findNonPseudoCopyDef, hd, bind_some, skipPseudoCopies, hcopy]
    rfl
  | copy i r copy get hr hi hcopy hdef hkept hsource hloaded ih =>
    rcases ht.exists_get hr hi hdef hkept with ⟨d, hd, rfl, hrep⟩
    rcases exists_machine_of_isPseudoCopy hcopy with ⟨x, fl, rfl⟩
    have hinsn := Replaces.machine_iff.1.mp hrep
    rcases ih with ⟨g, flags, hfind, hg, hact⟩
    refine ⟨g, flags, ?_, hg, hact⟩
    rcases bind_eq_some_iff.mp hfind with ⟨d', hd', hskip⟩
    -- The source was defined before the copy.
    have hlt : d'.index < d.index := by
      rcases ht.latest hd' with ⟨-, ⟨y, hy, -, hdef'⟩, -⟩
      exact Nat.lt_of_not_le fun hle => hsource _ y hle hy hdef'
    have hbef : m.getBefore (d.insn.regAt 1) d.index = some d' := by
      rw [hinsn]
      unfold getBefore
      rw [hd']
      exact if_neg (Nat.not_le.mpr hlt)
    rw [findNonPseudoCopyDef, hd, bind_some, skipPseudoCopies, if_pos (hinsn ▸ hcopy)]
    split
    · next d₁ hbef₁ =>
        rw [hbef] at hbef₁
        cases hbef₁
        exact hskip
    · next hnone =>
        rw [hbef] at hnone
        cases hnone

end

/-! ### What is known of registers -/

section

variable {W : Type} (layout : ContextLayout) (others : OtherInsns W) (block : List Insn)

def GetsGuest : Prop :=
  ∀ insn flags, Insn.machine insn flags ∈ block → layout.isCPUStateGet insn = true →
    ∀ i < insn.movType.size, others.isGuest (insn.disp + i)

def DefMap.Active (m : DefMap) (index : Nat) : Prop :=
  m.lastContextWriteInsn = 0 ∨ m.lastContextWriteInsn < index

/-- The registers hold what their latest definitions say. -/
structure DefMap.Sound (m : DefMap) (s : State W) : Prop where
  last_lt : m.Active m.index
  index_lt : ∀ {r d}, m.get r = some d → d.index < m.index
  read_ne : ∀ {r d}, m.get r = some d → d.insn.isCPUStateGet layout = true →
    m.lastContextWriteInsn = 0 ∨ m.lastContextWriteInsn ≠ d.index
  loaded : ∀ {r d insn flags}, m.get r = some d → d.insn = .machine insn flags →
    layout.isCPUStateGet insn = true → (∀ i < insn.movType.size, others.isGuest (insn.disp + i)) →
    insn.movType ≠ .movw → m.Active d.index → ∀ w ≤ 64,
      (s.regs r).bits.setWidth w = readWord s.cpu insn.disp w
  copied : ∀ {r d d'}, m.get r = some d → d.insn.isPseudoCopy = true →
    m.getBefore (d.insn.regAt 1) d.index = some d' → s.regs r = s.regs (d.insn.regAt 1)
  movq : ∀ {r d insn flags imm}, m.get r = some d → d.insn = .machine insn flags →
    insn.opcode = .movqRegImm imm → (s.regs r).bits = (BitVec.ofNat 64 imm).setWidth 128
  movl : ∀ {r d dst imm}, m.get r = some d → d.insn = .movlRegImm dst imm →
    (s.regs r).bits = imm.setWidth 128

variable {layout others block} {m m' : DefMap} {s : State W}

theorem sound_initial (s : State W) : initial.Sound layout others s where
  last_lt := Or.inl rfl
  index_lt h := by simp [initial_get] at h
  read_ne h := by simp [initial_get] at h
  loaded h := by simp [initial_get] at h
  copied h := by simp [initial_get] at h
  movq h := by simp [initial_get] at h
  movl h := by simp [initial_get] at h

theorem MovType.bits_le {type : MovType} (h : type ≠ .movw) : 64 ≤ 8 * type.size := by
  cases type with
  | movw => exact absurd rfl h
  | _ => decide

theorem not_put_of_active {insn : Insn} {r : MachineReg} {d : Def} (hs : m.Sound layout others s)
    (hm : m.processInsn layout insn = some m') (hd : m.get r = some d)
    (hact : m'.Active d.index) : insn.isCPUStatePut layout = false ∧ m.Active d.index := by
  have hlt := hs.index_lt hd
  rcases processInsn_spec hm with ⟨-, hlast, -⟩
  unfold DefMap.Active at hact ⊢
  rw [hlast] at hact
  cases hput : insn.isCPUStatePut layout with
  | true =>
    rw [hput, if_pos rfl] at hact
    omega
  | false =>
    rw [hput] at hact
    exact ⟨rfl, hact⟩

theorem exec_regs_of_isPseudoCopy {insn : Insn} {r : MachineReg} (h : insn.isPseudoCopy = true)
    (hr : insn.Defines r) : (exec layout others insn s).regs r = s.regs (insn.regAt 1) := by
  cases insn with
  | machine copy flags =>
    unfold Insn.isPseudoCopy at h
    dsimp only at h
    split at h
    · next hop =>
        rw [defines_machine_iff, defs_of_pseudoCopy hop, List.mem_singleton] at hr
        rw [machine_regAt, hr]
        simp [exec, execMachine_of_pseudoCopy hop]
    · cases h
  | movlRegImm | arithmetic => cases h

theorem sound_step {insn : Insn} (hs : m.Sound layout others s)
    (hm : m.processInsn layout insn = some m') :
    m'.Sound layout others (exec layout others insn s) := by
  rcases processInsn_spec hm with ⟨hidx, hlast, hdefs⟩
  refine ⟨?_, ?_, ?_, ?_, ?_, ?_, ?_⟩
  · have hlast_lt := hs.last_lt
    unfold DefMap.Active at hlast_lt ⊢
    rw [hlast, hidx]
    split_ifs <;> omega
  · intro r d hget
    rcases hdefs r d hget with ⟨-, -, hd⟩ | ⟨-, hold⟩
    · omega
    · have := hs.index_lt hold
      omega
  · intro r d hget hread
    rw [hlast]
    rcases hdefs r d hget with ⟨-, hinsn, hd⟩ | ⟨-, hold⟩
    · rw [hinsn] at hread
      have hput : insn.isCPUStatePut layout = false := by
        cases insn with
        | machine => exact ContextLayout.not_isCPUStatePut_of_get hread
        | movlRegImm | arithmetic => rfl
      have hlast_lt := hs.last_lt
      unfold DefMap.Active at hlast_lt
      rw [hput, hd]
      simp only [Bool.false_eq_true, if_false]
      omega
    · have hlt := hs.index_lt hold
      have hne := hs.read_ne hold hread
      split_ifs <;> omega
  · intro r d get flags hget hinsn hread hguest hwide hact w hw
    rcases hdefs r d hget with ⟨hr, hinsn', -⟩ | ⟨hr, hold⟩
    · rw [← hinsn', hinsn, defines_machine_iff, ContextLayout.defs_of_get hread,
        List.mem_singleton] at hr
      rw [← hinsn', hinsn, hr]
      simp only [exec, execMachine_of_get hread, setBits_self]
      exact setWidth_loaded _ hwide _ _ hw
    · rcases not_put_of_active hs hm hold hact with ⟨hput, hact'⟩
      rw [exec_regs hr, hs.loaded hold hinsn hread hguest hwide hact' w hw]
      exact (readWord_congr (hw.trans (MovType.bits_le hwide))
        fun i hi => exec_cpu hput s (hguest i hi)).symm
  · exact copied_processInsn hm hs.index_lt hs.copied (fun _ hr => exec_regs hr s)
      fun hcopy _ hr => exec_regs_of_isPseudoCopy hcopy hr
  · intro r d mov flags imm hget hinsn hop
    rcases hdefs r d hget with ⟨hr, hinsn', -⟩ | ⟨hr, hold⟩
    · rw [← hinsn', hinsn, defines_machine_iff, defs_of_movqRegImm hop, List.mem_singleton] at hr
      rw [← hinsn', hinsn, hr]
      simp [exec, execMachine_of_movqRegImm hop, setBits_self]
    · rw [exec_regs hr, hs.movq hold hinsn hop]
  · intro r d dst imm hget hinsn
    rcases hdefs r d hget with ⟨hr, hinsn', -⟩ | ⟨hr, hold⟩
    · rw [← hinsn', hinsn] at hr ⊢
      rcases hr with ⟨operand, hoper, -, rfl⟩
      rw [Insn.operands, List.mem_singleton] at hoper
      rw [hoper]
      exact setBits_self _ _ _
    · rw [exec_regs hr, hs.movl hold hinsn]

end

/-! ### What is folded -/

section

variable {W : Type} {layout : ContextLayout} {others : OtherInsns W} {block : List Insn}
  {m m' : DefMap} {s : State W} {info : ContextAccessInfo}

theorem findNonPseudoCopyDef_sound (hs : m.Sound layout others s) {r : MachineReg} {g : Def}
    (h : m.findNonPseudoCopyDef r = some g) : ∃ r', m.get r' = some g ∧ s.regs r = s.regs r' := by
  unfold findNonPseudoCopyDef at h
  rw [bind_eq_some_iff] at h
  rcases h with ⟨d, hd, hg⟩
  rcases m.skipPseudoCopies_eq s.regs hs.copied hd hg with ⟨r', hr', heq, -⟩
  exact ⟨r', hr', heq⟩

/-- The offset of a bit test is one of a bit in the operand. -/
def Insn.OffsetInside (s : State W) : Insn → Prop
  | .arithmetic .bt size (.reg _) (.reg r) _ =>
    ((s.regs r).bits.setWidth size.bits).toNat < size.bits
  | _ => True

theorem foldAgrees_of_value {op : ArithmeticOp} {size : OperandSize} {dst src dst' src' : Operand}
    {flags : MachineReg} (hop : op ≠ .bt) (hdst : dst.value s size.bits = dst'.value s size.bits)
    (hsrc : src.value s size.bits = src'.value s size.bits) :
    FoldAgrees s (.arithmetic op size dst src flags) (.arithmetic op size dst' src' flags) := by
  cases op with
  | bt => exact absurd rfl hop
  | add | sub | and | or | xor | cmp | test =>
    simp [FoldAgrees, ArithmeticOp.Agrees, hdst, hsrc]

/-- A bit of the operand in memory is found at its offset. -/
theorem testedBit_mem {size : OperandSize} {r0 r1 : MachineReg} {disp : Nat}
    (hread : (s.regs r0).bits.setWidth size.bits = readWord s.cpu disp size.bits)
    (h : ((s.regs r1).bits.setWidth size.bits).toNat < size.bits) :
    testedBit s size.bits (.reg r0) (.reg r1) = testedBit s size.bits (.mem disp) (.reg r1) := by
  have hint : ((s.regs r1).bits.setWidth size.bits).toInt =
      ((s.regs r1).bits.setWidth size.bits).toNat := by
    refine BitVec.toInt_eq_toNat_of_lt ?_
    cases size <;> simp only [OperandSize.bits] at h ⊢ <;> omega
  simp only [testedBit, Operand.value]
  rw [hread, hint, Nat.mod_eq_of_lt h, getLsbD_readWord, decide_eq_true h, Bool.true_and]

theorem newArithmeticInsn_spec {insn insn' : Insn} {disp pos : Nat}
    (h : newArithmeticInsnWithFoldedContextRead insn disp pos = some insn') :
    Replaces insn insn' ∧ (insn.OffsetInside s →
      (∀ w ≤ 64, (s.regs (insn.regAt pos)).bits.setWidth w = readWord s.cpu disp w) →
        FoldAgrees s insn insn') := by
  unfold newArithmeticInsnWithFoldedContextRead at h
  split at h
  · next op size r0 r1 flags =>
      have hsize := size.bits_le
      cases op with
      | add | sub | and | or | xor =>
        dsimp only at h
        split_ifs at h with hpos
        subst hpos
        cases h
        exact ⟨.source _ _ _ _ _ _, fun _ hread =>
          foldAgrees_of_value nofun rfl (hread _ hsize)⟩
      | cmp =>
        dsimp only at h
        split_ifs at h with hpos hpos <;> subst hpos <;> cases h
        · exact ⟨.read _ _ _ _ _ _ _ rfl, fun _ hread =>
            foldAgrees_of_value nofun (hread _ hsize) rfl⟩
        · exact ⟨.source _ _ _ _ _ _, fun _ hread =>
            foldAgrees_of_value nofun rfl (hread _ hsize)⟩
      | test =>
        dsimp only at h
        split_ifs at h with hpos hpos <;> subst hpos <;> cases h
        · exact ⟨.read _ _ _ _ _ _ _ rfl, fun _ hread =>
            foldAgrees_of_value nofun (hread _ hsize) rfl⟩
        · refine ⟨.read _ _ _ _ _ _ _ rfl, fun _ hread => ?_⟩
          have hval : Operand.value s size.bits (.reg r1) = readWord s.cpu disp size.bits :=
            hread _ hsize
          simp only [FoldAgrees, ArithmeticOp.Agrees, hval]
          -- The operands were swapped.
          rw [BitVec.and_comm]
          rfl
      | bt =>
        dsimp only at h
        split_ifs at h with hpos
        subst hpos
        cases h
        exact ⟨.read _ _ _ _ _ _ _ rfl, fun hoff hread => testedBit_mem (hread _ hsize) hoff⟩
  · next op size r0 imm flags =>
      split_ifs at h with hwrit hpos
      subst hpos
      cases h
      refine ⟨.read _ _ _ _ _ _ _ (Bool.eq_false_iff.mpr hwrit), fun _ hread => ?_⟩
      have hval : Operand.value s size.bits (.reg r0) =
          Operand.value s size.bits (.mem disp) := hread _ size.bits_le
      cases op with
      | cmp | test | bt => simp [FoldAgrees, ArithmeticOp.Agrees, testedBit, hval]
      | add | sub | and | or | xor => exact absurd rfl hwrit
  · cases h

end

section

variable (layout : ContextLayout) (info : ContextAccessInfo) (before : List Insn)

/-- A register that the pass may replace by an operand in memory. -/
def Foldable (r : MachineReg) (get : MachineInsn) : Prop :=
  LoadedBy layout before r get ∧ info.contextReadUsage get.disp ≤ 1

/-- The get whose load becomes an operand of an instruction. The second operand of a comparison
    has its turn when the first one cannot be folded. -/
def FoldsGet : Insn → MachineInsn → Prop
  | .arithmetic op _ (.reg r0) (.reg r1) _, load =>
    if op.writes then Foldable layout info before r1 load
    else Foldable layout info before r0 load ∨ op ≠ .bt ∧
      (∀ other, ¬Foldable layout info before r0 other) ∧ Foldable layout info before r1 load
  | .arithmetic op _ (.reg r0) (.imm _) _, load =>
    op.writes = false ∧ Foldable layout info before r0 load
  | _, _ => False

/-- If a get becomes an operand, then it is of all the bytes that the operand has, and a bit that
    is tested is one of the operand. -/
def SafeAt {W : Type} (s : State W) (insn : Insn) : Prop :=
  ∀ get, FoldsGet layout info before insn get → get.movType ≠ .movw ∧ insn.OffsetInside s

end

/-- All instructions of a block are safe to fold, each in the state that the block itself leads
    to. -/
def FoldsSafely {W : Type} (layout : ContextLayout) (others : OtherInsns W) (block : List Insn)
    (s : State W) : Prop :=
  ∀ k insn, block[k]? = some insn →
    SafeAt layout (.initial layout block) (block.take k) (run layout others (block.take k) s) insn

section

variable {W : Type} {layout : ContextLayout} {others : OtherInsns W} {block : List Insn}
  {m m' : DefMap} {s : State W} {info : ContextAccessInfo}

theorem isContextReadActive_eq_true {index : Nat} (h : m.isContextReadActive index = some true) :
    m.Active index := by
  unfold isContextReadActive at h
  split at h
  · next hzero => exact Or.inl hzero
  · split at h
    · cases h
    · exact Or.inr (of_decide_eq_true (some.inj h))

theorem isContextReadActive_ne_none (hs : m.Sound layout others s) {r : MachineReg} {d : Def}
    (hd : m.get r = some d) (hread : d.insn.isCPUStateGet layout = true) :
    m.isContextReadActive d.index ≠ none := by
  have hne := hs.read_ne hd hread
  unfold isContextReadActive
  split
  · exact some_ne_none _
  · next hzero =>
      rw [if_neg (hne.resolve_left hzero)]
      exact some_ne_none _

/-- The instruction may be put in place of the other one, and makes no difference
    if that is safe. -/
def GoodFold (layout : ContextLayout) (info : ContextAccessInfo) (before : List Insn) (s : State W)
    (insn insn' : Insn) : Prop :=
  Replaces insn insn' ∧ (SafeAt layout info before s insn → FoldAgrees s insn insn')

variable {insn : Insn} {before : List Insn}

section

variable (hs : m.Sound layout others s)
include hs

theorem tryFoldContextRead_spec (ht : m.Tracks layout before)
    (hguest : GetsGuest layout others before) {insn' : Insn} {pos : Nat}
    (h : tryFoldContextRead layout m info insn pos = some (some insn')) :
    ∃ get, Foldable layout info before (insn.regAt pos) get ∧ Replaces insn insn' ∧
      (get.movType ≠ .movw → insn.OffsetInside s → FoldAgrees s insn insn') := by
  unfold tryFoldContextRead at h
  split at h
  · cases h
  · next d hd =>
      rcases findNonPseudoCopyDef_sound hs hd with ⟨r', hr', hregs⟩
      rcases bind_eq_some_iff.mp hd with ⟨d', hd', hskip⟩
      split at h
      · next hread =>
          split at h
          · cases h
          · cases h
          · next hact =>
              split at h
              · cases h
              · next husage =>
                  rw [map_eq_some_iff] at h
                  rcases h with ⟨_, hnew, heq⟩
                  cases heq
                  have hactive := isContextReadActive_eq_true hact
                  rcases newArithmeticInsn_spec hnew with ⟨hrep, hagr⟩
                  cases hinsn : d.insn with
                  | machine get flags =>
                    rw [hinsn] at hread husage hnew
                    have hloaded := ht.loadedBy hd' hskip hinsn hread
                      (by unfold DefMap.Active at hactive; omega)
                    rcases hloaded.exists_mem with ⟨-, fl, hmem⟩
                    rw [hinsn] at hagr
                    refine ⟨get, ⟨hloaded, Nat.le_of_not_lt husage⟩, hrep, fun hwide hoff => ?_⟩
                    refine hagr hoff fun w hw => ?_
                    rw [hregs]
                    exact hs.loaded hr' hinsn hread (hguest get fl hmem hread) hwide hactive w hw
                  | movlRegImm | arithmetic =>
                    rw [hinsn] at hread
                    cases hread
      · cases h

theorem tryFoldContextRead_ne_none {pos : Nat}
    (hnew : ∀ disp, newArithmeticInsnWithFoldedContextRead insn disp pos ≠ none) :
    tryFoldContextRead layout m info insn pos ≠ none := by
  intro h
  unfold tryFoldContextRead at h
  split at h
  · cases h
  · next d hd =>
      rcases findNonPseudoCopyDef_sound hs hd with ⟨r', hr', -⟩
      split at h
      · next hread =>
          split at h
          · next hnone => exact isContextReadActive_ne_none hs hr' hread hnone
          · cases h
          · split at h
            · cases h
            · rw [map_eq_none_iff] at h
              exact hnew _ h
      · cases h

/-- A register that is not replaced is not one that may be. -/
theorem not_foldable_of_tryFoldContextRead (ht : m.Tracks layout before) {pos : Nat}
    (h : tryFoldContextRead layout m info insn pos = some none) (get : MachineInsn) :
    ¬Foldable layout info before (insn.regAt pos) get := by
  rintro ⟨hloaded, husage⟩
  rcases ht.exists_of_loadedBy hloaded with ⟨g, flags, hfind, hg, hle⟩
  rcases findNonPseudoCopyDef_sound hs hfind with ⟨r', hr', -⟩
  have hread : g.insn.isCPUStateGet layout = true := by
    rw [hg]
    exact hloaded.exists_mem.1
  have hdisp : g.insn.disp = get.disp := by
    rw [hg]
    rfl
  have hactive : m.isContextReadActive g.index = some true := by
    have hne := hs.read_ne hr' hread
    unfold isContextReadActive
    split_ifs with hzero heq
    · rfl
    · exact absurd heq (hne.resolve_left hzero)
    · exact congrArg some (decide_eq_true (Nat.lt_of_le_of_ne hle heq))
  rw [tryFoldContextRead, hfind] at h
  simp [hread, hactive, hdisp, Nat.not_lt.mpr husage] at h

theorem getImmValueIfPossible_sound {r : MachineReg} {imm : BitVec 64}
    (h : getImmValueIfPossible m r = some imm) : (s.regs r).bits.setWidth 64 = imm := by
  unfold getImmValueIfPossible at h
  split at h
  · next d hd =>
      rcases findNonPseudoCopyDef_sound hs hd with ⟨r', hr', hregs⟩
      rw [hregs]
      split at h
      · next insn flags hinsn =>
          split at h
          · next v hop =>
              cases h
              rw [hs.movq hr' hinsn hop, BitVec.setWidth_setWidth_of_le _ (by omega),
                BitVec.setWidth_eq]
          · cases h
      · next dst v hinsn =>
          cases h
          rw [hs.movl hr' hinsn, BitVec.setWidth_setWidth_of_le _ (by omega)]
      · cases h
  · cases h

theorem tryFoldImmediateInput_spec {insn' : Insn} (h : tryFoldImmediateInput m insn = some insn') :
    ∃ op size src0 src1 flags imm, insn = .arithmetic op size (.reg src0) (.reg src1) flags ∧
      insn' = .arithmetic op size (.reg src0) (.imm imm) flags ∧
      Operand.value s size.bits (.reg src1) = Operand.value s size.bits (.imm imm) := by
  unfold tryFoldImmediateInput at h
  split at h
  · next op size src0 src1 flags =>
      split at h
      · next imm himm =>
          have hval := getImmValueIfPossible_sound hs himm
          cases size with
          | l =>
            cases h
            refine ⟨op, .l, src0, src1, flags, _, rfl, rfl, ?_⟩
            simp only [Operand.value, ← hval, OperandSize.bits, BitVec.signExtend_eq]
            rw [BitVec.setWidth_setWidth_of_le _ (by omega)]
          | q =>
            dsimp only at h
            split at h
            · next hfits =>
                cases h
                exact ⟨op, .q, src0, src1, flags, _, rfl, rfl, hval.trans hfits.symm⟩
            · cases h
      · cases h
  · cases h

end

end

/-! ### The pass -/

section

variable {W : Type} {layout : ContextLayout} {others : OtherInsns W} {block : List Insn}
  {m m' : DefMap} {s : State W} {info : ContextAccessInfo}

theorem foldAgrees_immediate {op : ArithmeticOp} {size : OperandSize} {src0 src1 : MachineReg}
    {flags : MachineReg} {imm : BitVec 32} {insn' : Insn} (hop : op = .cmp ∨ op = .test)
    (hval : Operand.value s size.bits (.reg src1) = Operand.value s size.bits (.imm imm))
    (hrep : Replaces (.arithmetic op size (.reg src0) (.imm imm) flags) insn') :
    Replaces (.arithmetic op size (.reg src0) (.reg src1) flags) insn' ∧
      (FoldAgrees s (.arithmetic op size (.reg src0) (.imm imm) flags) insn' →
        FoldAgrees s (.arithmetic op size (.reg src0) (.reg src1) flags) insn') := by
  have hagr : ∀ dst' src' flags', FoldAgrees s (.arithmetic op size (.reg src0) (.imm imm) flags)
      (.arithmetic op size dst' src' flags') →
      FoldAgrees s (.arithmetic op size (.reg src0) (.reg src1) flags)
        (.arithmetic op size dst' src' flags') := by
    intro dst' src' flags' h
    rcases hop with rfl | rfl <;> simpa only [FoldAgrees, ArithmeticOp.Agrees, hval] using h
  cases hrep with
  | keep | source => exact ⟨.source _ _ _ _ _ _, hagr _ _ _⟩
  | read _ _ _ _ _ _ _ hwrit => exact ⟨.read _ _ _ _ _ _ _ hwrit, hagr _ _ _⟩

theorem GoodFold.refl (insn : Insn) : GoodFold layout info before s insn insn :=
  ⟨.keep insn, fun _ => FoldAgrees.refl s insn⟩

section

variable (info : ContextAccessInfo) (hs : m.Sound layout others s) (ht : m.Tracks layout before)
  (hguest : GetsGuest layout others before)
include hs ht hguest

theorem tryFoldContextRead_good (insn : Insn) (pos : Nat)
    (hnew : ∀ disp, newArithmeticInsnWithFoldedContextRead insn disp pos ≠ none)
    (hpos : ∀ get, Foldable layout info before (insn.regAt pos) get →
      FoldsGet layout info before insn get) :
    ∃ folded, tryFoldContextRead layout m info insn pos = some folded ∧
      GoodFold layout info before s insn (folded.getD insn) := by
  rcases ne_none_iff_exists'.mp (tryFoldContextRead_ne_none hs hnew) with ⟨folded, hfold⟩
  refine ⟨folded, hfold, ?_⟩
  cases folded with
  | none => exact GoodFold.refl insn
  | some insn' =>
    rcases tryFoldContextRead_spec hs ht hguest hfold with ⟨get, hget, hrep, hagr⟩
    refine ⟨hrep, fun hsafe => ?_⟩
    rcases hsafe get (hpos get hget) with ⟨hwide, hoff⟩
    exact hagr hwide hoff

theorem tryFoldImmediateAndContextReadInputs_spec {op : ArithmeticOp} {size : OperandSize}
    {r0 r1 flags : MachineReg} (hop : op = .cmp ∨ op = .test) :
    let insn : Insn := .arithmetic op size (.reg r0) (.reg r1) flags
    ∃ folded, tryFoldImmediateAndContextReadInputs layout m info insn = some folded ∧
      GoodFold layout info before s insn (folded.getD insn) := by
  intro insn
  have hwrit : op.writes = false := by rcases hop with rfl | rfl <;> rfl
  have hbt : op ≠ .bt := by rcases hop with rfl | rfl <;> decide
  have hiff : ∀ get, FoldsGet layout info before insn get ↔ Foldable layout info before r0 get ∨
      op ≠ .bt ∧ (∀ other, ¬Foldable layout info before r0 other) ∧
        Foldable layout info before r1 get :=
    fun get => iff_of_eq (if_neg (by simp [hwrit]))
  unfold tryFoldImmediateAndContextReadInputs
  dsimp only
  cases himm : tryFoldImmediateInput m insn with
  | none =>
    rcases tryFoldContextRead_good info hs ht hguest insn 0 (fun disp => by
      rcases hop with rfl | rfl <;> exact nofun)
      (fun get h => (hiff get).mpr (Or.inl h)) with ⟨folded, hfold, hgood⟩
    rw [getD_none, hfold]
    cases folded with
    | some insn' => exact ⟨_, rfl, hgood⟩
    | none =>
      refine tryFoldContextRead_good info hs ht hguest insn 1 (fun disp => by
        rcases hop with rfl | rfl <;> exact nofun)
        fun get hget => (hiff get).mpr (Or.inr ⟨hbt, ?_, hget⟩)
      exact not_foldable_of_tryFoldContextRead hs ht hfold
  | some insn₁ =>
    rcases tryFoldImmediateInput_spec hs himm with
      ⟨_, _, _, _, _, imm, heq, hinsn₁, hval⟩
    simp only [insn] at heq
    cases heq
    subst hinsn₁
    rcases tryFoldContextRead_good info hs ht hguest
      (.arithmetic op size (.reg r0) (.imm imm) flags) 0
      (fun disp => by rcases hop with rfl | rfl <;> exact nofun)
      (fun get hget => ⟨hwrit, hget⟩) with ⟨folded, hfold, hrep, hagr⟩
    rcases foldAgrees_immediate hop hval hrep with ⟨hrep', hagr'⟩
    have hgood : GoodFold layout info before s insn
        (folded.getD (.arithmetic op size (.reg r0) (.imm imm) flags)) := by
      refine ⟨hrep', fun hsafe => hagr' (hagr fun get hget => ⟨(hsafe get ?_).1, ?_⟩)⟩
      · exact (hiff get).mpr (Or.inl hget.2)
      · rcases hop with rfl | rfl <;> trivial
    rw [getD_some, hfold]
    cases folded with
    | some insn' => exact ⟨_, rfl, hgood⟩
    | none => exact ⟨_, rfl, hgood⟩

theorem tryFoldInsn_spec (insn : Insn) :
    ∃ folded, tryFoldInsn layout m info insn = some folded ∧
      GoodFold layout info before s insn (folded.getD insn) := by
  unfold tryFoldInsn
  split
  all_goals first
    | exact tryFoldContextRead_good info hs ht hguest _ _ nofun fun _ h => h
    | exact tryFoldContextRead_good info hs ht hguest _ _ nofun fun _ h => Or.inl h
    | exact tryFoldContextRead_good info hs ht hguest _ _ nofun fun _ h => ⟨rfl, h⟩
    | exact tryFoldImmediateAndContextReadInputs_spec info hs ht hguest (Or.inl rfl)
    | exact tryFoldImmediateAndContextReadInputs_spec info hs ht hguest (Or.inr rfl)
    | exact ⟨none, rfl, GoodFold.refl _⟩

end

end

def Insn.FlagsIn (flags : MachineReg) (insn : Insn) : Prop :=
  ∀ operand ∈ insn.operands, operand.isFlags = true → operand.reg = flags

variable {insn : Insn} {flags : MachineReg}

theorem Replaces.flagsIn {insn' : Insn} (h : Replaces insn insn') (hfl : insn.FlagsIn flags) :
    insn'.FlagsIn flags := by
  have hops : ∀ (operand : Operand) (isDef : Bool) (o : RegOperand),
      o ∈ operand.regOperands isDef → o.isFlags = false := by
    intro operand isDef o ho
    cases operand <;> simp [Operand.regOperands] at ho <;> rw [ho]
  have harithm : ∀ op size dst src flags', Insn.FlagsIn flags
      (.arithmetic op size dst src flags') ↔ flags' = flags := by
    intro op size dst src flags'
    constructor
    · intro hin
      exact hin ⟨flags', false, true, true⟩ (by simp [Insn.operands]) rfl
    · rintro rfl operand hmem hisf
      simp only [Insn.operands, List.mem_append, List.mem_singleton] at hmem
      rcases hmem with (hmem | hmem) | rfl
      · rw [hops _ _ _ hmem] at hisf
        cases hisf
      · rw [hops _ _ _ hmem] at hisf
        cases hisf
      · rfl
  cases h with
  | keep => exact hfl
  | source | read =>
    rw [harithm] at hfl ⊢
    exact hfl

theorem set_flagsReg (m : DefMap) (reg : MachineReg) (insn : Insn) (pos : Nat) :
    (m.set reg insn pos).flagsReg = m.flagsReg := by
  unfold DefMap.set
  split <;> rfl

theorem mapOperands_isSome {operands : List RegOperand}
    (hops : ∀ operand ∈ operands, operand.isFlags = true → operand.reg = flags) (op : Nat)
    {m : DefMap} (hm : m.flagsReg = kInvalidMachineReg ∨ m.flagsReg = flags) :
    ∃ m', mapOperands insn operands op m = some m' ∧
      (m'.flagsReg = kInvalidMachineReg ∨ m'.flagsReg = flags) := by
  induction operands generalizing op m with
  | nil => exact ⟨m, rfl, hm⟩
  | cons operand rest ih =>
    rw [List.forall_mem_cons] at hops
    have hone : ∃ m₁, m.mapDefReg insn operand op = some m₁ ∧
        (m₁.flagsReg = kInvalidMachineReg ∨ m₁.flagsReg = flags) := by
      unfold mapDefReg
      generalize hreg : (if operand.isFlags = true ∧ m.flagsReg = kInvalidMachineReg
        then operand.reg else m.flagsReg) = flagsReg
      have hfl : flagsReg = kInvalidMachineReg ∨ flagsReg = flags := by
        rw [← hreg]
        split
        · next hop => exact Or.inr (hops.1 hop.1)
        · exact hm
      rw [if_neg]
      · refine ⟨_, rfl, ?_⟩
        split
        · rwa [set_flagsReg]
        · exact hfl
      · -- A register that is known already is the only one.
        rintro ⟨hisf, hne⟩
        rw [← hreg] at hne
        split at hne
        · exact hne rfl
        · next hknown =>
            refine hne ((hops.1 hisf).trans ?_)
            exact (hm.resolve_left fun h => hknown ⟨hisf, h⟩).symm
    rcases hone with ⟨m₁, hm₁, hfl₁⟩
    rcases ih hops.2 (op + 1) hfl₁ with ⟨m', hm', hfl'⟩
    refine ⟨m', ?_, hfl'⟩
    rw [mapOperands, hm₁]
    exact hm'

theorem processInsn_isSome (layout : ContextLayout) (hinsn : insn.FlagsIn flags) {m : DefMap}
    (hm : m.flagsReg = kInvalidMachineReg ∨ m.flagsReg = flags) :
    ∃ m', m.processInsn layout insn = some m' ∧
      (m'.flagsReg = kInvalidMachineReg ∨ m'.flagsReg = flags) := by
  unfold processInsn mapDefRegs
  have hput : (if insn.isCPUStatePut layout then { m with lastContextWriteInsn := m.index }
      else m).flagsReg = m.flagsReg := by
    split <;> rfl
  rcases mapOperands_isSome hinsn 0 (hput ▸ hm) with ⟨m', hm', hfl'⟩
  rw [hm', map_some]
  exact ⟨_, rfl, hfl'⟩

section

variable {W : Type} {layout : ContextLayout} {others : OtherInsns W} {block : List Insn}
  {m m' : DefMap} {s : State W} {info : ContextAccessInfo}

theorem GetsGuest.of_append {rest : List Insn} (h : GetsGuest layout others (before ++ rest)) :
    GetsGuest layout others before :=
  fun insn flags hmem => h insn flags (List.mem_append_left _ hmem)

theorem foldFrom_isSome (info : ContextAccessInfo) {flags : MachineReg} {rest : List Insn}
    (hguest : GetsGuest layout others (before ++ rest)) (hfl : ∀ insn ∈ rest, insn.FlagsIn flags)
    (hs : m.Sound layout others s) (ht : m.Tracks layout before)
    (hm : m.flagsReg = kInvalidMachineReg ∨ m.flagsReg = flags) :
    ∃ folded, foldFrom layout info m rest = some folded := by
  induction rest generalizing m s before with
  | nil => exact ⟨[], rfl⟩
  | cons insn rest ih =>
    rw [List.forall_mem_cons] at hfl
    rcases tryFoldInsn_spec info hs ht hguest.of_append insn with ⟨folded, hfold, hrep, -⟩
    rcases processInsn_isSome layout (hrep.flagsIn hfl.1) hm with ⟨m', hm', hfl'⟩
    rw [List.append_cons] at hguest
    rcases ih hguest hfl.2 (sound_step hs hm') (ht.step hrep hm') hfl' with ⟨folded', hfold'⟩
    refine ⟨folded.getD insn :: folded', ?_⟩
    rw [foldFrom, hfold]
    simp [hm', hfold']

theorem run_cons (insn : Insn) (insns : List Insn) (s : State W) :
    run layout others (insn :: insns) s = run layout others insns (exec layout others insn s) :=
  rfl

/-- The instructions after each other do the same as those in place of them if each fold is
    safe. -/
theorem foldFrom_run {rest folded : List Insn} (hguest : GetsGuest layout others (before ++ rest))
    (hs : m.Sound layout others s) (ht : m.Tracks layout before)
    (hfold : foldFrom layout info m rest = some folded)
    (hsafe : ∀ k insn, rest[k]? = some insn → SafeAt layout info (before ++ rest.take k)
      (run layout others (rest.take k) s) insn) :
    run layout others rest s = run layout others folded s := by
  induction rest generalizing m s before folded with
  | nil =>
    cases hfold
    rfl
  | cons insn rest ih =>
    rcases tryFoldInsn_spec info hs ht hguest.of_append insn with ⟨fold, hinsn, hrep, hagr⟩
    rw [foldFrom, hinsn] at hfold
    dsimp only at hfold
    split at hfold
    · cases hfold
    · next m' hm' =>
        rw [map_eq_some_iff] at hfold
        rcases hfold with ⟨folded', hfold', rfl⟩
        generalize fold.getD insn = insn' at hrep hagr hm'
        have hhere : SafeAt layout info before s insn := by
          have hzero := hsafe 0 insn rfl
          rwa [List.take_zero, List.append_nil] at hzero
        have hexec : exec layout others insn s = exec layout others insn' s :=
          (exec_eq_iff hrep s).mpr (hagr hhere)
        have hsound := hexec ▸ sound_step hs hm'
        rw [List.append_cons] at hguest
        rw [run_cons, run_cons, ← hexec]
        refine ih hguest hsound (ht.step hrep hm') hfold' fun k x hx => ?_
        have hk := hsafe (k + 1) x hx
        rwa [List.take_succ_cons, List.append_cons, run_cons] at hk

def OtherInsns.inert : OtherInsns Unit :=
  ⟨fun _ _ _ cpu world => (fun _ => ⟨0, ⟨none, none, none, none, none, none⟩⟩, cpu, world),
    fun _ => True, fun _ _ _ _ _ _ _ => rfl⟩

def State.zero : State Unit := ⟨fun _ => ⟨0, ⟨none, none, none, none, none, none⟩⟩, fun _ => 0, ()⟩

/-- The pass ends, and the block does the same as before in every state in which it has only
    folds that are safe. -/
theorem foldInsns_run (layout : ContextLayout) (others : OtherInsns W) (block : List Insn)
    (flags : MachineReg) (hflags : ∀ insn ∈ block, insn.FlagsIn flags)
    (hguest : GetsGuest layout others block) : ∃ folded, foldInsns layout block = some folded ∧
      ∀ s, FoldsSafely layout others block s →
        run layout others block s = run layout others folded s := by
  have hinert : GetsGuest layout OtherInsns.inert ([] ++ block) := fun _ _ _ _ _ _ => trivial
  rcases foldFrom_isSome (.initial layout block) hinert hflags (sound_initial State.zero)
    tracks_initial (Or.inl rfl) with ⟨folded, hfolded⟩
  have hnil : GetsGuest layout others ([] ++ block) := hguest
  exact ⟨folded, hfolded, fun s hsafe =>
    foldFrom_run hnil (sound_initial s) tracks_initial hfolded hsafe⟩

end

/-! ### Instances -/

def sampleLayout : ContextLayout := ⟨1024, 900, 16, fun _ => false⟩

def getThen (disp : Nat) (insn : MachineReg → Insn) : List Insn :=
  let dst := MachineReg.createVRegFromIndex 0
  [.machine ⟨.movRegMemBaseDisp .movq disp,
    [(⟨8, .def_⟩, dst), (⟨8, .use⟩, kCPUStatePointer)], none, rfl⟩ none, insn dst]

def sampleReg : MachineReg := .createVRegFromIndex 1

def sampleFlags : MachineReg := .createVRegFromIndex 2

def testLoaded : List Insn :=
  getThen 16 fun r => .arithmetic .bt .q (.reg r) (.reg sampleReg) sampleFlags

theorem testLoaded_fold : foldInsns sampleLayout testLoaded =
    some (getThen 16 fun _ => .arithmetic .bt .q (.mem 16) (.reg sampleReg) sampleFlags) := by
  decide +kernel

/-- The lowest bit of the guest context is set at the displacement, and 64 is the
    offset of the bit to test. -/
def testState : State Unit :=
  { State.zero with
    regs := fun r => if r = sampleReg then ⟨64, ⟨none, none, none, none, none, none⟩⟩
      else State.zero.regs r
    cpu := fun a => if a = 16 then 1 else 0 }

/-- A bit test of a register takes the offset modulo 64, and one of memory looks
    into the next word. -/
theorem foldInsns_bitTest_differs : ∃ folded, foldInsns sampleLayout testLoaded = some folded ∧
    run sampleLayout OtherInsns.inert testLoaded testState ≠
      run sampleLayout OtherInsns.inert folded testState := by
  refine ⟨_, testLoaded_fold, fun heq => ?_⟩
  have hcarry := congrArg (fun s : State Unit => (s.regs sampleFlags).flags.carry) heq
  revert hcarry
  decide +kernel

/-- A test of a bit of what was loaded is folded, and does the same in every state with an offset
    in the operand. -/
theorem foldInsns_testLoaded : ∃ folded, foldInsns sampleLayout testLoaded = some folded ∧
    folded ≠ testLoaded ∧ ∀ s : State Unit,
      ((s.regs sampleReg).bits.setWidth 64).toNat < 64 →
        run sampleLayout OtherInsns.inert testLoaded s =
          run sampleLayout OtherInsns.inert folded s := by
  have hflags : ∀ insn ∈ testLoaded, insn.FlagsIn sampleFlags := by
    unfold Insn.FlagsIn
    decide +kernel
  have hguest : GetsGuest sampleLayout OtherInsns.inert testLoaded := fun _ _ _ _ _ _ => trivial
  rcases foldInsns_run sampleLayout OtherInsns.inert testLoaded sampleFlags hflags hguest with
    ⟨folded, hfolded, hrun⟩
  cases testLoaded_fold.symm.trans hfolded
  refine ⟨_, hfolded, by decide +kernel, fun s hs => hrun s fun k insn hk get hget => ?_⟩
  rcases k with _ | _ | k
  · cases hk
    cases hget
  · cases hk
    have hloaded : ∃ r, LoadedBy sampleLayout (testLoaded.take 1) r get :=
      hget.elim (fun h => ⟨_, h.1⟩) fun h => absurd rfl h.1
    rcases hloaded with ⟨r, hloaded⟩
    rcases hloaded.exists_mem with ⟨-, flags, hmem⟩
    cases List.mem_singleton.mp hmem
    exact ⟨nofun, hs⟩
  · cases hk

end Berberis.Backend.InsnFolding
