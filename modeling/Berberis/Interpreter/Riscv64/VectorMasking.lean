import Berberis.Lib.Lanes

/-!
# Masking of Vector Registers

The result of a vector operation replaces a register of the destination group
lane by lane. Lanes before `vstart` stay. Lanes from `vstart` up to `vl` are
replaced if they are active, and otherwise treated by the policy for inactive
lanes. Lanes from `vl` on are treated by the policy for the tail.
-/

namespace Berberis.Riscv64.Vector

open Lib BitVec

inductive ElementType where
  | e8
  | e16
  | e32
  | e64
  deriving DecidableEq

namespace ElementType

def bits : ElementType → Nat
  | e8 => 8
  | e16 => 16
  | e32 => 32
  | e64 => 64

def elementsCount (e : ElementType) : Nat := 128 / e.bits

section

variable (e : ElementType)

theorem bits_pos : 0 < e.bits := by
  cases e <;> decide

theorem elementsCount_pos : 0 < e.elementsCount := by
  cases e <;> decide

theorem elementsCount_le : e.elementsCount ≤ 16 := by
  cases e <;> decide

theorem bits_mul_elementsCount : e.bits * e.elementsCount = 128 := by
  cases e <;> rfl

end

theorem bit_lt {e : ElementType} {i b : Nat} (hi : i < e.elementsCount) (hb : b < e.bits) :
    e.bits * i + b < 128 := by
  have hmul := Nat.mul_le_mul_left e.bits (Nat.succ_le_of_lt hi)
  rw [e.bits_mul_elementsCount, Nat.mul_succ] at hmul
  omega

theorem lane_ofLanes {e : ElementType} (f : Nat → BitVec e.bits) {i : Nat}
    (hi : i < e.elementsCount) : lane e.bits (ofLanes e.bits f) i = f i := by
  have hbit := bit_lt hi (Nat.sub_lt e.bits_pos Nat.one_pos)
  exact Lib.lane_ofLanes f (by omega)

end ElementType

variable {e : ElementType} {i b index : Nat} {vstart vl : Int}

theorem lane_setLane (r : BitVec 128) (i : Nat) (value : BitVec e.bits) {j : Nat}
    (hj : j < e.elementsCount) :
    lane e.bits (setLane e.bits r i value) j = if j = i then value else lane e.bits r j := by
  unfold setLane
  rw [ElementType.lane_ofLanes _ hj]

theorem eq_of_lane_eq (e : ElementType) {r r' : BitVec 128}
    (h : ∀ i < e.elementsCount, lane e.bits r i = lane e.bits r' i) : r = r' :=
  Lib.eq_of_lane_eq e.bits_pos e.bits_mul_elementsCount h

theorem setLane_eq_self_iff {r : BitVec 128} {value : BitVec e.bits} (hi : i < e.elementsCount) :
    setLane e.bits r i value = r ↔ lane e.bits r i = value := by
  constructor
  · intro h
    have hlane := lane_setLane r i value hi
    rwa [h, if_pos rfl] at hlane
  · rintro rfl
    refine eq_of_lane_eq e fun j hj => ?_
    rw [lane_setLane r i _ hj]
    split_ifs with hji
    · rw [hji]
    · rfl

inductive TailProcessing where
  | kUndisturbed
  | kAgnostic
  deriving DecidableEq

inductive InactiveProcessing where
  | kUndisturbed
  | kAgnostic
  deriving DecidableEq

/-! ### Masks -/

def makeBitmaskFromVl (e : ElementType) (vl : Nat) : BitVec 128 := maskFrom (vl * e.bits)

def bitMaskToSimdMask (e : ElementType) (mask : BitVec 16) : BitVec 128 :=
  ofLanes e.bits fun i => if mask.getLsbD i then BitVec.allOnes e.bits else 0

def maskForRegisterInSequence (e : ElementType) (mask : BitVec 128) (registerInSequence : Nat) :
    BitVec 16 :=
  match e with
  | .e8 => mask.extractLsb' (16 * registerInSequence) 16
  | .e16 => (mask.extractLsb' (8 * registerInSequence) 8).setWidth 16
  -- The count of a shift of a 32-bit number is taken modulo its width.
  | .e32 =>
    ((mask.setWidth 32 >>> (registerInSequence * 4 % 32)).setWidth 8 &&& 0b1111#8).setWidth 16
  | .e64 =>
    ((mask.setWidth 32 >>> (registerInSequence * 2 % 32)).setWidth 8 &&& 0b11#8).setWidth 16

theorem getLsbD_makeBitmaskFromVl (e : ElementType) (vl : Nat) (hi : i < e.elementsCount)
    (hb : b < e.bits) : (makeBitmaskFromVl e vl).getLsbD (e.bits * i + b) = decide (vl ≤ i) := by
  unfold makeBitmaskFromVl
  rw [getLsbD_maskFrom _ (ElementType.bit_lt hi hb), decide_eq_decide]
  constructor
  · intro hle
    by_contra hlt
    have hmul := Nat.mul_le_mul_right e.bits (Nat.succ_le_of_lt (Nat.lt_of_not_le hlt))
    rw [Nat.succ_mul, Nat.mul_comm i] at hmul
    omega
  · intro hle
    have hmul := Nat.mul_le_mul_right e.bits hle
    rw [Nat.mul_comm i] at hmul
    omega

theorem getLsbD_bitMaskToSimdMask (e : ElementType) (mask : BitVec 16) (hi : i < e.elementsCount)
    (hb : b < e.bits) : (bitMaskToSimdMask e mask).getLsbD (e.bits * i + b) = mask.getLsbD i := by
  unfold bitMaskToSimdMask
  rw [getLsbD_ofLanes _ _ (ElementType.bit_lt hi hb), div_lane hb, Nat.mul_add_mod,
    Nat.mod_eq_of_lt hb]
  cases mask.getLsbD i
  · simp
  · simp [hb]

theorem getLsbD_maskForRegisterInSequence (e : ElementType) (mask : BitVec 128) {k : Nat}
    (hk : k < 8) (hi : i < e.elementsCount) :
    (maskForRegisterInSequence e mask k).getLsbD i = mask.getLsbD (e.elementsCount * k + i) := by
  cases e with
  | e8 =>
    have hi' : i < 16 := hi
    simp [maskForRegisterInSequence, ElementType.elementsCount, ElementType.bits, hi']
  | e16 =>
    have hi' : i < 8 := hi
    simp [maskForRegisterInSequence, ElementType.elementsCount, ElementType.bits, hi']
    omega
  | e32 =>
    have hi' : i < 4 := hi
    have hmask : (0b1111#8).getLsbD i = true := by interval_cases i <;> rfl
    have hlt : 4 * k + i < 32 := by omega
    have hcomm : k * 4 % 32 + i = 4 * k + i := by omega
    simp only [maskForRegisterInSequence, getLsbD_setWidth, getLsbD_and, hmask,
      getLsbD_ushiftRight, hlt, decide_true, Bool.true_and, Bool.and_true, hcomm]
    simp [show i < 16 by omega, show i < 8 by omega, ElementType.elementsCount, ElementType.bits]
  | e64 =>
    have hi' : i < 2 := hi
    have hmask : (0b11#8).getLsbD i = true := by interval_cases i <;> rfl
    have hlt : 2 * k + i < 32 := by omega
    have hcomm : k * 2 % 32 + i = 2 * k + i := by omega
    simp only [maskForRegisterInSequence, getLsbD_setWidth, getLsbD_and, hmask,
      getLsbD_ushiftRight, hlt, decide_true, Bool.true_and, Bool.and_true, hcomm]
    simp [show i < 16 by omega, show i < 8 by omega, ElementType.elementsCount, ElementType.bits]

/-! ### Masking -/

/-- A number relative to a register, as unsigned 64-bit numbers are subtracted and
    narrowed to `int`. -/
def relativeTo (e : ElementType) (n index : Nat) : Int :=
  ((BitVec.ofNat 64 n - BitVec.ofNat 64 (index * e.elementsCount)).setWidth 32).toInt

def clampVstart (vstart : Int) : Int := if vstart < 0 then 0 else vstart

def clampVl (e : ElementType) (vl : Int) : Int :=
  let vl := if vl < 0 then 0 else vl
  if e.elementsCount < vl then e.elementsCount else vl

def vectorMaskingNoMask (e : ElementType) (vta : TailProcessing) (dest result : BitVec 128)
    (vstart vl : Int) : BitVec 128 :=
  let vstart := clampVstart vstart
  let vl := clampVl e vl
  let startBitmask := makeBitmaskFromVl e vstart.toNat
  let tailBitmask := makeBitmaskFromVl e vl.toNat
  if vstart = 0 then
    if vl = e.elementsCount then result
    else
      match vta with
      | .kAgnostic => result ||| tailBitmask
      | .kUndisturbed => (dest &&& tailBitmask) ||| (result &&& ~~~tailBitmask)
  else if vstart < vl then
    match vta with
    | .kAgnostic => (dest &&& ~~~startBitmask) ||| (result &&& startBitmask) ||| tailBitmask
    | .kUndisturbed =>
      (dest &&& (~~~startBitmask ||| tailBitmask)) |||
        (result &&& startBitmask &&& ~~~tailBitmask)
  else
    match vta with
    | .kAgnostic => if vstart = vl then dest ||| tailBitmask else dest
    | .kUndisturbed => dest

/-- The result with the inactive lanes treated by the policy, where an undisturbed
    lane is that of `resultMask`. There is no mask when there is no policy. -/
def maskResult (e : ElementType) (vma : Option InactiveProcessing) (result resultMask : BitVec 128)
    (mask : BitVec 16) : BitVec 128 :=
  let simdMask := bitMaskToSimdMask e mask
  match vma with
  | none => result
  | some .kAgnostic => result ||| ~~~simdMask
  | some .kUndisturbed => (result &&& simdMask) ||| (resultMask &&& ~~~simdMask)

def vectorMasking (e : ElementType) (vta : TailProcessing) (vma : Option InactiveProcessing)
    (dest result resultMask : BitVec 128) (vstart vl index : Nat) (mask : BitVec 128) :
    BitVec 128 :=
  vectorMaskingNoMask e vta dest
    (maskResult e vma result resultMask (maskForRegisterInSequence e mask index))
    (relativeTo e vstart index) (relativeTo e vl index)

/-! ### What becomes of a lane -/

def bodyElement {w : Nat} (vma : Option InactiveProcessing) (active : Bool)
    (result inactive : BitVec w) : BitVec w :=
  match vma with
  | none => result
  | some .kAgnostic => if active then result else BitVec.allOnes w
  | some .kUndisturbed => if active then result else inactive

def tailElement {w : Nat} (vta : TailProcessing) (old : BitVec w) : BitVec w :=
  match vta with
  | .kAgnostic => BitVec.allOnes w
  | .kUndisturbed => old

/-- Element `n` of a group after an operation: prestart, body or tail. -/
def elementAfter {w : Nat} (vta : TailProcessing) (vma : Option InactiveProcessing)
    (mask : BitVec 128) (vstart vl n : Nat) (old result inactive : BitVec w) : BitVec w :=
  if n < vstart then old
  else if n < vl then bodyElement vma (mask.getLsbD n) result inactive
  else tailElement vta old

theorem relativeTo_eq {n : Nat} (hn : n < 2 ^ 31) (hidx : index < 8) :
    relativeTo e n index = n - index * e.elementsCount := by
  have hcount := e.elementsCount_le
  have hmul : index * e.elementsCount ≤ 7 * 16 := Nat.mul_le_mul (by omega) hcount
  unfold relativeTo
  rw [← Int.natCast_mul]
  generalize index * e.elementsCount = k at hmul
  simp only [toInt_eq_toNat_cond, toNat_setWidth, toNat_sub, toNat_ofNat]
  split <;> omega

/-! The clamped numbers divide the lanes of a register as the numbers do. -/

theorem clampVstart_toNat_le (vstart : Int) (i : Nat) :
    (clampVstart vstart).toNat ≤ i ↔ ¬ (i : Int) < vstart := by
  unfold clampVstart
  split <;> omega

section

variable (e : ElementType)

theorem clampVl_toNat_le (vl : Int) (hi : i < e.elementsCount) :
    (clampVl e vl).toNat ≤ i ↔ ¬ (i : Int) < vl := by
  unfold clampVl
  dsimp only
  split <;> split <;> omega

theorem clamp_le (h : vstart ≤ vl) :
    0 ≤ clampVstart vstart ∧ 0 ≤ clampVl e vl ∧ clampVl e vl ≤ e.elementsCount ∧
      (clampVstart vstart ≤ clampVl e vl ∨ clampVl e vl = e.elementsCount) := by
  unfold clampVstart clampVl
  dsimp only
  split <;> split <;> split <;> omega

theorem getLsbD_startBitmask (vstart : Int) (hi : i < e.elementsCount)
    (hb : b < e.bits) : (makeBitmaskFromVl e (clampVstart vstart).toNat).getLsbD (e.bits * i + b) =
      decide (¬ (i : Int) < vstart) := by
  rw [getLsbD_makeBitmaskFromVl e _ hi hb, decide_eq_decide.2 (clampVstart_toNat_le vstart i)]

theorem getLsbD_tailBitmask (vl : Int) (hi : i < e.elementsCount)
    (hb : b < e.bits) : (makeBitmaskFromVl e (clampVl e vl).toNat).getLsbD (e.bits * i + b) =
      decide (¬ (i : Int) < vl) := by
  rw [getLsbD_makeBitmaskFromVl e _ hi hb, decide_eq_decide.2 (clampVl_toNat_le e vl hi)]

end

theorem getLsbD_not_bit (hi : i < e.elementsCount) (hb : b < e.bits) (r : BitVec 128) :
    (~~~r).getLsbD (e.bits * i + b) = !r.getLsbD (e.bits * i + b) := by
  rw [getLsbD_not, decide_eq_true (ElementType.bit_lt hi hb), Bool.true_and]

/-- The bits of a lane, when there is no mask. Past the end of the register
    `vstart` may be after the clamped `vl`, but not before. -/
theorem getLsbD_vectorMaskingNoMask (e : ElementType) (vta : TailProcessing)
    (dest result : BitVec 128) (h : vstart ≤ vl) (hi : i < e.elementsCount) (hb : b < e.bits) :
    (vectorMaskingNoMask e vta dest result vstart vl).getLsbD (e.bits * i + b) =
      if (i : Int) < vstart then dest.getLsbD (e.bits * i + b)
      else if (i : Int) < vl then result.getLsbD (e.bits * i + b)
      else match vta with
        | .kAgnostic => true
        | .kUndisturbed => dest.getLsbD (e.bits * i + b) := by
  have hnot := getLsbD_not_bit hi hb
  have hms := getLsbD_startBitmask e vstart hi hb
  have hmt := getLsbD_tailBitmask e vl hi hb
  have hst := clampVstart_toNat_le vstart i
  have htail := clampVl_toNat_le e vl hi
  have hclamp := clamp_le e h
  unfold vectorMaskingNoMask
  dsimp only
  generalize clampVstart vstart = vs at hms hst hclamp ⊢
  generalize clampVl e vl = vl' at hmt htail hclamp ⊢
  by_cases hvs : (i : Int) < vstart
  · have hvl : (i : Int) < vl := by omega
    rw [if_neg (show vs ≠ 0 by omega)]
    cases vta <;> split_ifs <;> simp [hms, hmt, hvs, hvl, hnot]
  · by_cases hvl : (i : Int) < vl
    · rw [if_pos (show vs < vl' by omega)]
      cases vta <;> split_ifs <;> simp [hms, hmt, hvs, hvl, hnot]
    · rw [if_neg (show vl' ≠ e.elementsCount by omega)]
      cases vta with
      | kUndisturbed =>
        split_ifs <;> simp [hms, hmt, hvs, hvl, hnot]
      | kAgnostic =>
        -- After the tail starts the tail is all ones, unless `vstart` comes later still.
        split_ifs <;> simp [hms, hmt, hvs, hvl, hnot]
        all_goals omega

theorem getLsbD_maskResult (e : ElementType) (vma : Option InactiveProcessing)
    (result resultMask mask : BitVec 128) (hidx : index < 8) (hi : i < e.elementsCount)
    (hb : b < e.bits) :
    (maskResult e vma result resultMask (maskForRegisterInSequence e mask index)).getLsbD
        (e.bits * i + b) =
      (bodyElement vma (mask.getLsbD (e.elementsCount * index + i)) (lane e.bits result i)
        (lane e.bits resultMask i)).getLsbD b := by
  have hmask := getLsbD_bitMaskToSimdMask e (maskForRegisterInSequence e mask index) hi hb
  rw [getLsbD_maskForRegisterInSequence e mask hidx hi] at hmask
  have hlane : ∀ r, (lane e.bits r i).getLsbD b = r.getLsbD (e.bits * i + b) :=
    fun r => getLsbD_lane_of_lt r i hb
  have hnot : (~~~bitMaskToSimdMask e (maskForRegisterInSequence e mask index)).getLsbD
      (e.bits * i + b) = !mask.getLsbD (e.elementsCount * index + i) := by
    rw [getLsbD_not_bit hi hb, hmask]
  unfold maskResult bodyElement
  generalize mask.getLsbD (e.elementsCount * index + i) = active at hmask hnot
  match vma with
  | none => exact (hlane result).symm
  | some .kAgnostic =>
    rw [getLsbD_or, hnot]
    cases active
    · simp [hb]
    · simp [hlane]
  | some .kUndisturbed =>
    rw [getLsbD_or, getLsbD_and, getLsbD_and, hmask, hnot]
    cases active <;> simp [hlane]

theorem lane_vectorMasking (e : ElementType) (vta : TailProcessing)
    (vma : Option InactiveProcessing) (dest result resultMask mask : BitVec 128) {vstart vl : Nat}
    (h : vstart ≤ vl) (hvl : vl < 2 ^ 31) (hidx : index < 8) (hi : i < e.elementsCount) :
    lane e.bits (vectorMasking e vta vma dest result resultMask vstart vl index mask) i =
      elementAfter vta vma mask vstart vl (e.elementsCount * index + i) (lane e.bits dest i)
        (lane e.bits result i) (lane e.bits resultMask i) := by
  refine eq_of_getLsbD_eq fun b hb => ?_
  have hst : ((i : Int) < relativeTo e vstart index) ↔ e.elementsCount * index + i < vstart := by
    rw [relativeTo_eq (by omega) hidx, Nat.mul_comm]
    omega
  have htail : ((i : Int) < relativeTo e vl index) ↔ e.elementsCount * index + i < vl := by
    rw [relativeTo_eq hvl hidx, Nat.mul_comm]
    omega
  have hle : relativeTo e vstart index ≤ relativeTo e vl index := by
    rw [relativeTo_eq (by omega) hidx, relativeTo_eq hvl hidx]
    omega
  rw [getLsbD_lane_of_lt _ i hb]
  unfold vectorMasking elementAfter
  rw [getLsbD_vectorMaskingNoMask e vta _ _ hle hi hb, getLsbD_maskResult e vma _ _ _ hidx hi hb]
  simp only [hst, htail]
  split_ifs
  · rw [getLsbD_lane_of_lt dest i hb]
  · rfl
  · cases vta with
    | kAgnostic => simp [tailElement, hb]
    | kUndisturbed => exact (getLsbD_lane_of_lt dest i hb).symm

/-! ### Arguments with a default element -/

def vectorBroadcast (e : ElementType) (defaultElement : BitVec e.bits) : BitVec 128 :=
  ofLanes e.bits fun _ => defaultElement

/-- The lanes before `vstart` and from `vl` on, replaced by the default element. -/
def defaultMaskingNoMask (e : ElementType) (defaultElement : BitVec e.bits) (result : BitVec 128)
    (vstart vl : Int) : BitVec 128 :=
  let vstart := clampVstart vstart
  let vl := clampVl e vl
  let startBitmask := makeBitmaskFromVl e vstart.toNat
  let tailBitmask := makeBitmaskFromVl e vl.toNat
  if defaultElement = 0 then
    if vstart = 0 then
      if vl ≠ e.elementsCount then result &&& ~~~tailBitmask else result
    else if vl ≤ vstart then 0
    else result &&& startBitmask &&& ~~~tailBitmask
  else if defaultElement = BitVec.allOnes e.bits then
    if vstart = 0 then
      if vl ≠ e.elementsCount then result ||| tailBitmask else result
    else if vl ≤ vstart then BitVec.allOnes 128
    else result ||| ~~~startBitmask ||| tailBitmask
  else
    let dest := vectorBroadcast e defaultElement
    if vstart = 0 then
      if vl ≠ e.elementsCount then (result &&& ~~~tailBitmask) ||| (dest &&& tailBitmask)
      else result
    else if vl ≤ vstart then dest
    else (result &&& startBitmask &&& ~~~tailBitmask) |||
      (dest &&& (~~~startBitmask ||| tailBitmask))

def defaultMaskResult (e : ElementType) (defaultElement : BitVec e.bits)
    (vma : Option InactiveProcessing) (result : BitVec 128) (mask : BitVec 16) : BitVec 128 :=
  let simdMask := bitMaskToSimdMask e mask
  match vma with
  | none => result
  | some _ =>
    if defaultElement = BitVec.allOnes e.bits then result ||| ~~~simdMask
    else if defaultElement = 0 then result &&& simdMask
    else (result &&& simdMask) ||| (vectorBroadcast e defaultElement &&& ~~~simdMask)

def defaultMasking (e : ElementType) (defaultElement : BitVec e.bits)
    (vma : Option InactiveProcessing) (result : BitVec 128) (vstart vl index : Nat)
    (mask : BitVec 128) : BitVec 128 :=
  defaultMaskingNoMask e defaultElement
    (defaultMaskResult e defaultElement vma result (maskForRegisterInSequence e mask index))
    (relativeTo e vstart index) (relativeTo e vl index)

section

variable (defaultElement : BitVec e.bits)

theorem getLsbD_defaultMaskingNoMask (result : BitVec 128)
    (hi : i < e.elementsCount) (hb : b < e.bits) (hvs : ¬ (i : Int) < vstart)
    (hvl : (i : Int) < vl) :
    (defaultMaskingNoMask e defaultElement result vstart vl).getLsbD (e.bits * i + b) =
      result.getLsbD (e.bits * i + b) := by
  have hnot := getLsbD_not_bit hi hb
  have hms := getLsbD_startBitmask e vstart hi hb
  have hmt := getLsbD_tailBitmask e vl hi hb
  have hst := clampVstart_toNat_le vstart i
  have htail := clampVl_toNat_le e vl hi
  unfold defaultMaskingNoMask
  dsimp only
  generalize clampVstart vstart = vs at hms hst ⊢
  generalize clampVl e vl = vl' at hmt htail ⊢
  have hlt : ¬ vl' ≤ vs := by omega
  split_ifs <;> simp [hms, hmt, hvs, hvl, hnot]

section

variable (vma : Option InactiveProcessing) (result mask : BitVec 128)

theorem getLsbD_defaultMaskResult (hidx : index < 8) (hi : i < e.elementsCount) (hb : b < e.bits)
    (hact : vma ≠ none → mask.getLsbD (e.elementsCount * index + i) = true) :
    (defaultMaskResult e defaultElement vma result
        (maskForRegisterInSequence e mask index)).getLsbD (e.bits * i + b) =
      result.getLsbD (e.bits * i + b) := by
  unfold defaultMaskResult
  cases vma with
  | none => rfl
  | some vma =>
    have hmask := getLsbD_bitMaskToSimdMask e (maskForRegisterInSequence e mask index) hi hb
    rw [getLsbD_maskForRegisterInSequence e mask hidx hi, hact nofun] at hmask
    have hnot := getLsbD_not_bit hi hb
      (bitMaskToSimdMask e (maskForRegisterInSequence e mask index))
    split_ifs <;> simp [hmask, hnot]

theorem lane_defaultMasking {vstart vl : Nat} (hvl : vl < 2 ^ 31) (hidx : index < 8)
    (hi : i < e.elementsCount) (hst : vstart ≤ e.elementsCount * index + i)
    (hend : e.elementsCount * index + i < vl)
    (hact : vma ≠ none → mask.getLsbD (e.elementsCount * index + i) = true) :
    lane e.bits (defaultMasking e defaultElement vma result vstart vl index mask) i =
      lane e.bits result i := by
  refine lane_congr fun b hb => ?_
  unfold defaultMasking
  rw [getLsbD_defaultMaskingNoMask defaultElement _ hi hb,
    getLsbD_defaultMaskResult defaultElement vma result mask hidx hi hb hact]
  · rw [relativeTo_eq (by omega) hidx]
    rw [Nat.mul_comm] at hst
    omega
  · rw [relativeTo_eq hvl hidx]
    rw [Nat.mul_comm] at hend
    omega

end

end

end Berberis.Riscv64.Vector
