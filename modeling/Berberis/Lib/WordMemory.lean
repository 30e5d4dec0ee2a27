import Berberis.Lib.BitMemory

/-!
# Words in a Memory with Wrapping Addresses

A memory is a byte for each address, and addresses are words themselves: after
the last address comes the first. A sequence of stores to locations that are
apart is undone by loads from them.
-/

namespace Berberis.Lib

variable {n w : Nat}

def loadWord (mem : BitVec n → BitVec 8) (address : BitVec n) (w : Nat) : BitVec w :=
  ofBits (fun b => (mem (address + BitVec.ofNat n (b / 8))).getLsbD (b % 8)) w

def storeWord (mem : BitVec n → BitVec 8) (address : BitVec n) (value : BitVec w) :
    BitVec n → BitVec 8 :=
  fun a =>
    if 8 * (a - address).toNat < w then value.extractLsb' (8 * (a - address).toNat) 8 else mem a

/-- Words of `w` bits at two addresses have no byte in common. -/
def WordsApart (w : Nat) (address address' : BitVec n) : Prop :=
  ∀ i j, 8 * i < w → 8 * j < w → address + BitVec.ofNat n i ≠ address' + BitVec.ofNat n j

theorem sub_toNat_add (address : BitVec n) {i : Nat} (hi : i < 2 ^ n) :
    (address + BitVec.ofNat n i - address).toNat = i := by
  rw [BitVec.add_comm, BitVec.add_sub_cancel, BitVec.toNat_ofNat, Nat.mod_eq_of_lt hi]

theorem loadWord_storeWord (mem : BitVec n → BitVec 8) (address : BitVec n) (value : BitVec w)
    (hw : w ≤ 8 * 2 ^ n) : loadWord (storeWord mem address value) address w = value := by
  refine BitVec.eq_of_getLsbD_eq fun b hb => ?_
  unfold loadWord storeWord
  rw [getLsbD_ofBits, decide_eq_true hb, Bool.true_and, sub_toNat_add address (by omega),
    if_pos (by omega), BitVec.getLsbD_extractLsb', decide_eq_true (Nat.mod_lt b (by omega)),
    Bool.true_and, Nat.div_add_mod]

variable {mem : BitVec n → BitVec 8}

theorem storeWord_of_ne {address a : BitVec n} {value : BitVec w}
    (h : ∀ i, 8 * i < w → a ≠ address + BitVec.ofNat n i) :
    storeWord mem address value a = mem a := by
  refine if_neg fun hlt => h _ hlt ?_
  rw [BitVec.ofNat_toNat, BitVec.setWidth_eq, BitVec.add_comm, BitVec.sub_add_cancel]

theorem loadWord_congr {mem' : BitVec n → BitVec 8} {address : BitVec n}
    (h : ∀ i, 8 * i < w → mem' (address + BitVec.ofNat n i) = mem (address + BitVec.ofNat n i)) :
    loadWord mem' address w = loadWord mem address w := by
  refine BitVec.eq_of_getLsbD_eq fun b hb => ?_
  unfold loadWord
  rw [getLsbD_ofBits, getLsbD_ofBits, h (b / 8) (by omega)]

/-! ### Sequences of stores -/

variable {ι : Type} {location : ι → BitVec n} {value : ι → BitVec w}

theorem foldl_storeWord_of_not_mem {q : List ι} {a : BitVec n}
    (h : ∀ p ∈ q, ∀ i, 8 * i < w → a ≠ location p + BitVec.ofNat n i) :
    q.foldl (fun mem p => storeWord mem (location p) (value p)) mem a = mem a := by
  induction q generalizing mem with
  | nil => rfl
  | cons p q ih =>
    rw [List.foldl_cons, ih fun p' hp' => h p' (List.mem_cons_of_mem p hp'),
      storeWord_of_ne (h p (List.mem_cons_self ..))]

theorem loadWord_foldl_storeWord {q : List ι} (hw : w ≤ 8 * 2 ^ n)
    (hq : q.Pairwise fun p p' => WordsApart w (location p) (location p')) {p : ι} (hp : p ∈ q) :
    loadWord (q.foldl (fun mem p => storeWord mem (location p) (value p)) mem) (location p) w =
      value p := by
  induction q generalizing mem with
  | nil => exact absurd hp (List.not_mem_nil)
  | cons p' q ih =>
    rw [List.foldl_cons]
    rw [List.pairwise_cons] at hq
    rcases List.mem_cons.1 hp with rfl | hp
    · -- The later stores are apart from the first one.
      rw [loadWord_congr fun i hi =>
        foldl_storeWord_of_not_mem fun p' hp' j hj => hq.1 p' hp' i j hi hj]
      exact loadWord_storeWord mem _ _ hw
    · exact ih hq.2 hp

end Berberis.Lib
