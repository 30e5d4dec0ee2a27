import Mathlib

/-!
# Symbols of a Loaded File

A symbol is looked up by its name through one of two hash tables. The GNU table
has a filter in front of it, chains that lie one after the other in an array,
and hashes in the place of links; the older one has linked chains. All symbols
can also be enumerated.

## Theorems

* `findSymbol_agrees`: Lookups agree with enumerations.
-/

namespace Berberis.TinyLoader

open List Option

structure ElfSym (w : Nat) where
  stName : UInt32
  stInfo : UInt8
  stShndx : UInt16
  stValue : BitVec w

/-- A string of a program in C, without the zero that ends it. -/
structure CString where
  bytes : List UInt8
  nonzero : ∀ c ∈ bytes, c ≠ 0

structure TinySymbolTable (w : Nat) where
  loadBias : BitVec w
  symtab : UInt32 → ElfSym w
  strtab : Nat → UInt8
  strtabSize : Nat
  isGnuHash : Bool
  gnuNbucket : Nat
  gnuBucket : Option (Nat → UInt32)
  gnuChain : Option (UInt32 → UInt32)
  gnuMaskwords : UInt32
  gnuShift2 : UInt32
  gnuBloomFilter : Option (UInt32 → BitVec w)
  sysvNbucket : Nat
  sysvBucket : Option (Nat → UInt32)
  sysvChain : Option (UInt32 → UInt32)

def gnuHash (name : CString) : UInt32 :=
  name.bytes.foldl (fun h c => h + ((h <<< 5) + c.toUInt32)) 5381

def sysvHash (name : CString) : UInt32 :=
  name.bytes.foldl
    (fun h c =>
      let h := (h <<< 4) + c.toUInt32
      let g := h &&& 0xf0000000
      (h ^^^ g) ^^^ (g >>> 24)) 0

def stbGlobal : UInt8 := 1

def stbWeak : UInt8 := 2

def shnUndef : UInt16 := 0

def isSymbolGlobalAndDefined {w : Nat} (s : ElfSym w) : Bool :=
  (s.stInfo >>> 4 == stbGlobal || s.stInfo >>> 4 == stbWeak) && s.stShndx != shnUndef

/-- The string at an address is this one: what `strcmp` finds equal. -/
def isStringAt (mem : Nat → UInt8) : Nat → List UInt8 → Bool
  | a, [] => mem a == 0
  | a, c :: cs => mem a == c && isStringAt mem (a + 1) cs

namespace TinySymbolTable

variable {w : Nat} (t : TinySymbolTable w)

def getString (index : UInt32) : Option Nat :=
  if index.toNat < t.strtabSize then some index.toNat else none

def hasName (s : ElfSym w) (name : CString) : Option Bool :=
  (t.getString s.stName).map fun a => isStringAt t.strtab a name.bytes

/-! ### GNU hash -/

def bloomTest (bloomFilter : UInt32 → BitVec w) (hash : UInt32) : Bool :=
  let h2 := hash >>> t.gnuShift2
  let wordNum := UInt32.ofNat (hash.toNat / w) &&& t.gnuMaskwords
  let bloomWord := bloomFilter wordNum
  (1#w &&& (bloomWord >>> (hash.toNat % w)) &&& (bloomWord >>> (h2.toNat % w))) != 0#w

def findInGnuChain (chain : UInt32 → UInt32) (name : CString) :
    Nat → UInt32 → Option (BitVec w)
  | 0, _ => none
  | fuel + 1, n =>
    let s := t.symtab n
    let sameName := if (chain n ^^^ gnuHash name) >>> 1 = 0 then t.hasName s name else some false
    sameName.bind fun same =>
      if same && isSymbolGlobalAndDefined s then some (t.loadBias + s.stValue)
      else if chain n &&& 1 = 0 then findInGnuChain chain name fuel (n + 1)
      else some 0

def findGnuSymbol (fuel : Nat) (name : CString) : Option (BitVec w) :=
  match t.isGnuHash, t.gnuBloomFilter, t.gnuBucket, t.gnuChain with
  | true, some bloomFilter, some bucket, some chain =>
    let hash := gnuHash name
    if !t.bloomTest bloomFilter hash then some 0
    else if t.gnuNbucket = 0 then none
    else
      let n := bucket (hash.toNat % t.gnuNbucket)
      if n = 0 then some 0 else t.findInGnuChain chain name fuel n
  | _, _, _, _ => none

def gnuChainSymbols (chain : UInt32 → UInt32) : Nat → UInt32 → Option (List UInt32)
  | 0, _ => none
  | fuel + 1, n =>
    if chain n &&& 1 = 0 then (gnuChainSymbols chain fuel (n + 1)).map (n :: ·) else some [n]

def gnuBucketSymbols (bucket : Nat → UInt32) (chain : UInt32 → UInt32) (fuel i : Nat) :
    Option (List UInt32) :=
  if bucket i = 0 then some [] else gnuChainSymbols chain fuel (bucket i)

def forEachBucket (bucket : Nat → UInt32) (chain : UInt32 → UInt32) (fuel : Nat) :
    List Nat → Option (List UInt32)
  | [] => some []
  | i :: is =>
    (gnuBucketSymbols bucket chain fuel i).bind fun symbols =>
      (forEachBucket bucket chain fuel is).map (symbols ++ ·)

def forEachGnuSymbol (fuel : Nat) : Option (List UInt32) :=
  match t.isGnuHash, t.gnuBucket, t.gnuChain with
  | true, some bucket, some chain => forEachBucket bucket chain fuel (List.range t.gnuNbucket)
  | _, _, _ => none

/-! ### System V hash -/

def findInSysvChain (chain : UInt32 → UInt32) (name : CString) :
    Nat → UInt32 → Option (BitVec w)
  | 0, _ => none
  | fuel + 1, n =>
    if n = 0 then some 0
    else
      let s := t.symtab n
      (t.hasName s name).bind fun same =>
        if same && isSymbolGlobalAndDefined s then some (t.loadBias + s.stValue)
        else findInSysvChain chain name fuel (chain n)

def findSysvSymbol (fuel : Nat) (name : CString) : Option (BitVec w) :=
  match t.isGnuHash, t.sysvBucket, t.sysvChain with
  | false, some bucket, some chain =>
    if t.sysvNbucket = 0 then none
    else t.findInSysvChain chain name fuel (bucket ((sysvHash name).toNat % t.sysvNbucket))
  | _, _, _ => none

def sysvChainSymbols (chain : UInt32 → UInt32) : Nat → UInt32 → Option (List UInt32)
  | 0, _ => none
  | fuel + 1, n => if n = 0 then some [] else (sysvChainSymbols chain fuel (chain n)).map (n :: ·)

def findSymbol (fuel : Nat) (name : CString) : Option (BitVec w) :=
  if t.isGnuHash then t.findGnuSymbol fuel name else t.findSysvSymbol fuel name

/-! ### What a lookup is for -/

/-- A symbol has this name, is global or weak, and is defined. -/
def provides (name : CString) (n : UInt32) : Bool :=
  isStringAt t.strtab (t.symtab n).stName.toNat name.bytes && isSymbolGlobalAndDefined (t.symtab n)

/-- The address of the first symbol along a list that provides a name, and 0 when there is none. -/
def lookupIn (name : CString) (symbols : List UInt32) : BitVec w :=
  match symbols.find? (t.provides name) with
  | some n => t.loadBias + (t.symtab n).stValue
  | none => 0

def Named (n : UInt32) (name : CString) : Prop :=
  (t.symtab n).stName.toNat < t.strtabSize ∧
    isStringAt t.strtab (t.symtab n).stName.toNat name.bytes = true

def EndsWithin (chain : UInt32 → UInt32) : Nat → UInt32 → Prop
  | 0, n => chain n &&& 1 ≠ 0
  | k + 1, n => chain n &&& 1 ≠ 0 ∨ EndsWithin chain k (n + 1)

/-- The entries of a chain. -/
inductive InChain (chain : UInt32 → UInt32) : UInt32 → UInt32 → Prop
  | head (n : UInt32) : InChain chain n n
  | next (n k : UInt32) (hmore : chain n &&& 1 = 0) (h : InChain chain (n + 1) k) :
      InChain chain n k

def BloomBits (bloomFilter : UInt32 → BitVec w) (hash : UInt32) : Prop :=
  (bloomFilter (UInt32.ofNat (hash.toNat / w) &&& t.gnuMaskwords)).getLsbD (hash.toNat % w) = true ∧
    (bloomFilter (UInt32.ofNat (hash.toNat / w) &&& t.gnuMaskwords)).getLsbD
      ((hash >>> t.gnuShift2).toNat % w) = true

/-- A symbol with its hash in the chain of a bucket. -/
structure HashedIn (bloomFilter : UInt32 → BitVec w) (chain : UInt32 → UInt32) (i : Nat)
    (n : UInt32) (name : CString) : Prop where
  named : t.Named n name
  hash_eq : (chain n ^^^ gnuHash name) >>> 1 = 0
  bucket_eq : (gnuHash name).toNat % t.gnuNbucket = i
  bloom : t.BloomBits bloomFilter (gnuHash name)

structure GnuWellFormed (bloomFilter : UInt32 → BitVec w) (bucket : Nat → UInt32)
    (chain : UInt32 → UInt32) : Prop where
  isGnuHash : t.isGnuHash = true
  bloomFilter_eq : t.gnuBloomFilter = some bloomFilter
  bucket_eq : t.gnuBucket = some bucket
  chain_eq : t.gnuChain = some chain
  nbucket_pos : 0 < t.gnuNbucket
  ends : ∀ i < t.gnuNbucket, bucket i ≠ 0 → ∃ k, EndsWithin chain k (bucket i)
  hashed : ∀ i < t.gnuNbucket, bucket i ≠ 0 → ∀ n, InChain chain (bucket i) n →
    ∃ name, t.HashedIn bloomFilter chain i n name

/-- Linked chains end. -/
structure SysvWellFormed (bucket : Nat → UInt32) (chain : UInt32 → UInt32) : Prop where
  isGnuHash : t.isGnuHash = false
  bucket_eq : t.sysvBucket = some bucket
  chain_eq : t.sysvChain = some chain
  nbucket_pos : 0 < t.sysvNbucket
  ends : ∀ i < t.sysvNbucket, ∃ k, chain^[k] (bucket i) = 0
  named : ∀ i < t.sysvNbucket, ∀ k, chain^[k] (bucket i) ≠ 0 →
    (t.symtab (chain^[k] (bucket i))).stName.toNat < t.strtabSize

/-- A lookup's result: the address of the first symbol that provides the name,
    which is null when there is none or when it lies at address 0. -/
def Finds (name : CString) (symbols : List UInt32) (found : Option (BitVec w)) : Prop :=
  found = some (t.lookupIn name symbols) ∧
    (found = some 0 ↔
      ∀ n, symbols.find? (t.provides name) = some n → t.loadBias + (t.symtab n).stValue = 0)

variable {t}

theorem finds_lookupIn (name : CString) (symbols : List UInt32) :
    t.Finds name symbols (some (t.lookupIn name symbols)) := by
  refine ⟨rfl, ?_⟩
  unfold lookupIn
  cases symbols.find? (t.provides name) with
  | none => simp
  | some n => simp

theorem isStringAt_unique {mem : Nat → UInt8} {xs ys : List UInt8} {a : Nat}
    (hx : ∀ c ∈ xs, c ≠ 0) (hy : ∀ c ∈ ys, c ≠ 0) (h : isStringAt mem a xs = true)
    (h' : isStringAt mem a ys = true) : xs = ys := by
  induction xs generalizing ys a with
  | nil =>
    cases ys with
    | nil => rfl
    | cons y ys =>
      simp only [isStringAt, Bool.and_eq_true, beq_iff_eq] at h h'
      exact absurd (h'.1.symm.trans h) (hy y (by simp))
  | cons x xs ih =>
    cases ys with
    | nil =>
      simp only [isStringAt, Bool.and_eq_true, beq_iff_eq] at h h'
      exact absurd (h.1.symm.trans h') (hx x (by simp))
    | cons y ys =>
      simp only [isStringAt, Bool.and_eq_true, beq_iff_eq] at h h'
      rw [ih (fun c hc => hx c (by simp [hc])) (fun c hc => hy c (by simp [hc])) h.2 h'.2,
        ← h.1, h'.1]

variable {n : UInt32} {name : CString}

theorem Named.unique {name' : CString} (h : t.Named n name)
    (h' : isStringAt t.strtab (t.symtab n).stName.toNat name'.bytes = true) : name = name' := by
  have hbyt := isStringAt_unique name.nonzero name'.nonzero h.2 h'
  cases name
  cases name'
  simp only [CString.mk.injEq]
  exact hbyt

theorem hasName_of_lt (h : (t.symtab n).stName.toNat < t.strtabSize) (name : CString) :
    t.hasName (t.symtab n) name =
      some (isStringAt t.strtab (t.symtab n).stName.toNat name.bytes) := by
  simp [hasName, getString, h]

theorem lookupIn_cons_of_provides (symbols : List UInt32) (h : t.provides name n = true) :
    t.lookupIn name (n :: symbols) = t.loadBias + (t.symtab n).stValue := by
  simp [lookupIn, h]

theorem lookupIn_cons_of_not (symbols : List UInt32) (h : t.provides name n = false) :
    t.lookupIn name (n :: symbols) = t.lookupIn name symbols := by
  simp [lookupIn, h]

theorem lookupIn_eq_zero {symbols : List UInt32} (h : ∀ n ∈ symbols, t.provides name n = false) :
    t.lookupIn name symbols = 0 := by
  have hnone : symbols.find? (t.provides name) = none := by
    simpa using h
  simp [lookupIn, hnone]

/-! ### GNU hash -/

section Gnu

variable {bloomFilter : UInt32 → BitVec w} {bucket : Nat → UInt32} {chain : UInt32 → UInt32}

variable {n : UInt32} {i : Nat} {name : CString}

theorem exists_gnuChainSymbols {k : Nat} (h : EndsWithin chain k n) :
    ∃ symbols, (∀ fuel, k < fuel → gnuChainSymbols chain fuel n = some symbols) ∧
      ∀ m ∈ symbols, InChain chain n m := by
  induction k generalizing n with
  | zero =>
    refine ⟨[n], ?_, by simpa using InChain.head n⟩
    intro fuel hfuel
    obtain ⟨fuel, rfl⟩ : ∃ f, fuel = f + 1 := ⟨fuel - 1, by omega⟩
    simp [gnuChainSymbols, if_neg (show ¬ chain n &&& 1 = 0 from h)]
  | succ k ih =>
    by_cases hlast : chain n &&& 1 = 0
    · rcases h with h | h
      · exact absurd hlast h
      rcases ih h with ⟨symbols, hsyms, hin⟩
      refine ⟨n :: symbols, ?_, ?_⟩
      · intro fuel hfuel
        obtain ⟨fuel, rfl⟩ : ∃ f, fuel = f + 1 := ⟨fuel - 1, by omega⟩
        simp [gnuChainSymbols, hlast, hsyms fuel (by omega)]
      · intro m hm
        rcases mem_cons.1 hm with rfl | hm
        · exact InChain.head m
        · exact InChain.next n m hlast (hin m hm)
    · refine ⟨[n], ?_, by simpa using InChain.head n⟩
      intro fuel hfuel
      obtain ⟨fuel, rfl⟩ : ∃ f, fuel = f + 1 := ⟨fuel - 1, by omega⟩
      simp [gnuChainSymbols, if_neg hlast]

theorem HashedIn.hash_of_provides {name' : CString} (h : t.HashedIn bloomFilter chain i n name')
    (hp : t.provides name n = true) : name' = name := by
  simp only [provides, Bool.and_eq_true] at hp
  exact h.named.unique hp.1

/-- A turn of the loop passes over a symbol that does not provide the name and
    stops at one that does. -/
theorem findInGnuChain_succ {name' : CString} (h : t.HashedIn bloomFilter chain i n name')
    (fuel : Nat) : t.findInGnuChain chain name (fuel + 1) n =
      if t.provides name n = true then some (t.loadBias + (t.symtab n).stValue)
      else if chain n &&& 1 = 0 then t.findInGnuChain chain name fuel (n + 1) else some 0 := by
  simp only [findInGnuChain]
  by_cases hhash : (chain n ^^^ gnuHash name) >>> 1 = 0
  · rw [if_pos hhash, hasName_of_lt h.named.1, bind_some]
    rfl
  · -- hashes differ, so the name is another one
    have hp : ¬ t.provides name n = true := by
      intro hp
      rw [← h.hash_of_provides hp] at hhash
      exact hhash h.hash_eq
    rw [if_neg hhash, if_neg hp]
    simp

theorem findInGnuChain_eq {fuel : Nat} {symbols : List UInt32}
    (hsyms : gnuChainSymbols chain fuel n = some symbols)
    (hhash : ∀ m ∈ symbols, ∃ name', t.HashedIn bloomFilter chain i m name') :
    t.findInGnuChain chain name fuel n = some (t.lookupIn name symbols) := by
  induction fuel generalizing n symbols with
  | zero => simp [gnuChainSymbols] at hsyms
  | succ fuel ih =>
    rw [gnuChainSymbols] at hsyms
    by_cases hmore : chain n &&& 1 = 0
    · rw [if_pos hmore, map_eq_some_iff] at hsyms
      obtain ⟨rest, hrest, rfl⟩ := hsyms
      obtain ⟨name', hn⟩ := hhash n (by simp)
      rw [findInGnuChain_succ hn]
      by_cases hp : t.provides name n = true
      · rw [if_pos hp, lookupIn_cons_of_provides rest hp]
      · rw [if_neg hp, if_pos hmore, lookupIn_cons_of_not rest (by simpa using hp)]
        exact ih hrest (fun m hm => hhash m (by simp [hm]))
    · rw [if_neg hmore, Option.some.injEq] at hsyms
      obtain ⟨name', hn⟩ := hhash n (by simp [← hsyms])
      rw [findInGnuChain_succ hn, ← hsyms]
      by_cases hp : t.provides name n = true
      · rw [if_pos hp, lookupIn_cons_of_provides [] hp]
      · rw [if_neg hp, if_neg hmore, lookupIn_cons_of_not [] (by simpa using hp)]
        simp [lookupIn]

theorem bloomTest_of_bits {hash : UInt32} (h : t.BloomBits bloomFilter hash) :
    t.bloomTest bloomFilter hash = true := by
  have hpos : 0 < w := by
    rcases Nat.eq_zero_or_pos w with rfl | hpos
    · simp [BloomBits] at h
    · exact hpos
  simp only [bloomTest, bne_iff_ne, ne_eq]
  intro hzero
  have hbit := congrArg (fun x : BitVec w => x.getLsbD 0) hzero
  simp only [BitVec.getLsbD_and, BitVec.getLsbD_ushiftRight, Nat.add_zero] at hbit
  rw [h.1, h.2] at hbit
  simp [hpos] at hbit

theorem forEachBucket_eq {fuel : Nat} {f : Nat → List UInt32} {is : List Nat}
    (h : ∀ i ∈ is, gnuBucketSymbols bucket chain fuel i = some (f i)) :
    forEachBucket bucket chain fuel is = some (is.flatMap f) := by
  induction is with
  | nil => rfl
  | cons i is ih =>
    rw [forEachBucket, h i (by simp), bind_some, ih (fun j hj => h j (by simp [hj])),
      map_some, flatMap_cons]

theorem lookupIn_flatMap {f : Nat → List UInt32} {is : List Nat} (hi : i ∈ is)
    (h : ∀ j ∈ is, j ≠ i → ∀ n ∈ f j, t.provides name n = false) :
    t.lookupIn name (is.flatMap f) = t.lookupIn name (f i) := by
  have hfind : (is.flatMap f).find? (t.provides name) = (f i).find? (t.provides name) := by
    rw [find?_flatMap]
    induction is with
    | nil => simp at hi
    | cons j is ih =>
      rw [findSome?_cons]
      have htail := fun hi => ih hi (fun k hk => h k (by simp [hk]))
      cases hj : (f j).find? (t.provides name) with
      | some n =>
        by_cases hji : j = i
        · rw [← hji, hj]
        · have hno := h j (by simp) hji n (mem_of_find?_eq_some hj)
          rw [find?_some hj] at hno
          exact absurd hno (by simp)
      | none =>
        rcases mem_cons.1 hi with rfl | hi
        · by_cases hmem : i ∈ is
          · exact htail hmem
          · rw [hj, findSome?_eq_none_iff]
            intro k hk
            have hki : k ≠ i := fun hki => hmem (hki ▸ hk)
            simpa using h k (by simp [hk]) hki
        · exact htail hi
  rw [lookupIn, lookupIn, hfind]

theorem GnuWellFormed.exists_symbols (h : t.GnuWellFormed bloomFilter bucket chain) :
    ∃ (N : Nat) (f : Nat → List UInt32), ∀ i < t.gnuNbucket,
      (∀ fuel, N ≤ fuel → gnuBucketSymbols bucket chain fuel i = some (f i)) ∧
        (bucket i = 0 → f i = []) ∧
        ∀ n ∈ f i, ∃ name, t.HashedIn bloomFilter chain i n name := by
  have hbuck : ∀ i, ∃ (k : Nat) (symbols : List UInt32), i < t.gnuNbucket →
      (∀ fuel, k ≤ fuel → gnuBucketSymbols bucket chain fuel i = some symbols) ∧
        (bucket i = 0 → symbols = []) ∧
        ∀ n ∈ symbols, ∃ name, t.HashedIn bloomFilter chain i n name := by
    intro i
    by_cases hi : i < t.gnuNbucket
    · by_cases hzero : bucket i = 0
      · exact ⟨0, [], fun _ => ⟨by simp [gnuBucketSymbols, hzero], by simp, by simp⟩⟩
      · obtain ⟨k, hk⟩ := h.ends i hi hzero
        obtain ⟨symbols, hsyms, hin⟩ := exists_gnuChainSymbols hk
        refine ⟨k + 1, symbols, fun _ => ⟨?_, fun hz => absurd hz hzero, ?_⟩⟩
        · intro fuel hfuel
          rw [gnuBucketSymbols, if_neg hzero, hsyms fuel (by omega)]
        · exact fun n hn => h.hashed i hi hzero n (hin n hn)
    · exact ⟨0, [], fun hlt => absurd hlt hi⟩
  choose k f hf using hbuck
  refine ⟨(Finset.range t.gnuNbucket).sup k, f, fun i hi => ⟨?_, (hf i hi).2⟩⟩
  intro fuel hfuel
  have hle : k i ≤ (Finset.range t.gnuNbucket).sup k := Finset.le_sup (by simpa using hi)
  exact (hf i hi).1 fuel (by omega)

theorem GnuWellFormed.finds (h : t.GnuWellFormed bloomFilter bucket chain) (name : CString) :
    ∃ N symbols, ∀ fuel, N ≤ fuel → t.forEachGnuSymbol fuel = some symbols ∧
        t.findGnuSymbol fuel name = some (t.lookupIn name symbols) := by
  obtain ⟨N, f, hf⟩ := h.exists_symbols
  refine ⟨N, (List.range t.gnuNbucket).flatMap f, fun fuel hfuel => ⟨?_, ?_⟩⟩
  · simp only [forEachGnuSymbol, h.isGnuHash, h.bucket_eq, h.chain_eq]
    exact forEachBucket_eq (fun i hi => (hf i (by simpa using hi)).1 fuel hfuel)
  · have hnb := h.nbucket_pos
    have hi : (gnuHash name).toNat % t.gnuNbucket < t.gnuNbucket := Nat.mod_lt _ hnb
    -- symbols that provide the name are all in the bucket of its hash
    rw [lookupIn_flatMap (mem_range.2 hi) ?_]
    · obtain ⟨hsyms, hnil, hhash⟩ := hf _ hi
      simp only [findGnuSymbol, h.isGnuHash, h.bloomFilter_eq, h.bucket_eq, h.chain_eq,
        if_neg (show ¬ t.gnuNbucket = 0 by omega)]
      by_cases hbloom : t.bloomTest bloomFilter (gnuHash name) = true
      · rw [if_neg (by simp [hbloom])]
        by_cases hzero : bucket ((gnuHash name).toNat % t.gnuNbucket) = 0
        · rw [if_pos hzero, hnil hzero]
          simp [lookupIn]
        · rw [if_neg hzero]
          have hchain := hsyms fuel hfuel
          rw [gnuBucketSymbols, if_neg hzero] at hchain
          exact findInGnuChain_eq hchain hhash
      · -- the filter says no only when no symbol has the name
        rw [if_pos (by simpa using hbloom), lookupIn_eq_zero]
        intro n hn
        by_contra hp
        obtain ⟨name', hn⟩ := hhash n hn
        have hname := hn.hash_of_provides (by simpa using hp)
        exact hbloom (bloomTest_of_bits (hname ▸ hn.bloom))
    · intro j hj hne n hn
      by_contra hp
      obtain ⟨name', hn⟩ := (hf j (by simpa using hj)).2.2 n hn
      have hname := hn.hash_of_provides (by simpa using hp)
      exact hne (hname ▸ hn.bucket_eq).symm

end Gnu

/-! ### System V hash -/

section Sysv

variable {bucket : Nat → UInt32} {chain : UInt32 → UInt32}

theorem findInSysvChain_eq (name : CString) {k : Nat} {n : UInt32} (hends : chain^[k] n = 0)
    (hnam : ∀ j, chain^[j] n ≠ 0 → (t.symtab (chain^[j] n)).stName.toNat < t.strtabSize) :
    ∃ symbols, ∀ fuel, k < fuel → sysvChainSymbols chain fuel n = some symbols ∧
        t.findInSysvChain chain name fuel n = some (t.lookupIn name symbols) := by
  by_cases hzero : n = 0
  · refine ⟨[], fun fuel hfuel => ?_⟩
    obtain ⟨fuel, rfl⟩ : ∃ f, fuel = f + 1 := ⟨fuel - 1, by omega⟩
    simp [sysvChainSymbols, findInSysvChain, hzero, lookupIn]
  · induction k generalizing n with
    | zero => exact absurd hends hzero
    | succ k ih =>
      have hn : (t.symtab n).stName.toNat < t.strtabSize := hnam 0 hzero
      have hrest : ∃ symbols, ∀ fuel, k < fuel →
          sysvChainSymbols chain fuel (chain n) = some symbols ∧
            t.findInSysvChain chain name fuel (chain n) = some (t.lookupIn name symbols) := by
        by_cases hlast : chain n = 0
        · refine ⟨[], fun fuel hfuel => ?_⟩
          obtain ⟨fuel, rfl⟩ : ∃ f, fuel = f + 1 := ⟨fuel - 1, by omega⟩
          simp [sysvChainSymbols, findInSysvChain, hlast, lookupIn]
        · exact ih (by simpa using hends) (fun j => hnam (j + 1)) hlast
      obtain ⟨symbols, hsyms⟩ := hrest
      refine ⟨n :: symbols, fun fuel hfuel => ?_⟩
      obtain ⟨fuel, rfl⟩ : ∃ f, fuel = f + 1 := ⟨fuel - 1, by omega⟩
      obtain ⟨hchain, hfind⟩ := hsyms fuel (by omega)
      refine ⟨by simp [sysvChainSymbols, hzero, hchain], ?_⟩
      rw [findInSysvChain, if_neg hzero]
      simp only [hasName_of_lt hn, bind_some]
      by_cases hp : t.provides name n = true
      · rw [lookupIn_cons_of_provides symbols hp]
        exact if_pos hp
      · rw [lookupIn_cons_of_not symbols (by simpa using hp), ← hfind]
        exact if_neg hp

end Sysv

/-- In every table as a linker makes it, and for every name, looking the name up and enumerating the
    symbols both end, and the lookup gives the address of the first symbol enumerated that has the
    name, is global or weak, and is defined. It gives null exactly when no such symbol is enumerated
    or the first one lies at address 0. -/
theorem findSymbol_agrees (t : TinySymbolTable w) (name : CString) :
    (∀ bloomFilter bucket chain, t.GnuWellFormed bloomFilter bucket chain →
      ∃ N symbols, ∀ fuel, N ≤ fuel → t.forEachGnuSymbol fuel = some symbols ∧
          t.Finds name symbols (t.findGnuSymbol fuel name)) ∧
    ∀ bucket chain, t.SysvWellFormed bucket chain → ∃ N symbols, ∀ fuel, N ≤ fuel →
        sysvChainSymbols chain fuel (bucket ((sysvHash name).toNat % t.sysvNbucket)) =
            some symbols ∧
          t.Finds name symbols (t.findSysvSymbol fuel name) := by
  refine ⟨fun bloomFilter bucket chain h => ?_, fun bucket chain h => ?_⟩
  · obtain ⟨N, symbols, hfind⟩ := h.finds name
    refine ⟨N, symbols, fun fuel hfuel => ⟨(hfind fuel hfuel).1, ?_⟩⟩
    rw [(hfind fuel hfuel).2]
    exact finds_lookupIn name symbols
  · have hnb := h.nbucket_pos
    have hi : (sysvHash name).toNat % t.sysvNbucket < t.sysvNbucket := Nat.mod_lt _ hnb
    obtain ⟨k, hk⟩ := h.ends _ hi
    obtain ⟨symbols, hfind⟩ := findInSysvChain_eq name hk (h.named _ hi)
    refine ⟨k + 1, symbols, fun fuel hfuel => ⟨(hfind fuel hfuel).1, ?_⟩⟩
    have hlookup : t.findSysvSymbol fuel name = some (t.lookupIn name symbols) := by
      simp only [findSysvSymbol, h.isGnuHash, h.bucket_eq, h.chain_eq]
      rw [if_neg (by omega)]
      exact (hfind fuel hfuel).2
    rw [hlookup]
    exact finds_lookupIn name symbols

def nameF : CString := ⟨[102], by simp⟩

def nameG : CString := ⟨[103], by simp⟩

/-- Two symbols of one name, of which the first is not defined, and one of another name in the
    same bucket, for either kind of hash. -/
def threeSymbols (isGnuHash : Bool) (value : BitVec 64) : TinySymbolTable 64 where
  loadBias := 0
  symtab n :=
    if n = 1 then ⟨1, 0x12, 0, 0⟩
    else if n = 2 then ⟨1, 0x12, 1, value⟩
    else if n = 3 then ⟨3, 0x12, 1, 0x3000⟩
    else ⟨0, 0, 0, 0⟩
  strtab a := if a = 1 then 102 else if a = 3 then 103 else 0
  strtabSize := 5
  isGnuHash := isGnuHash
  gnuNbucket := 1
  gnuBucket := some fun _ => 1
  gnuChain := some fun n => if n = 3 then 177677 else 177674
  gnuMaskwords := 0
  gnuShift2 := 6
  gnuBloomFilter := some fun _ => BitVec.allOnes 64
  sysvNbucket := 1
  sysvBucket := some fun _ => 1
  sysvChain := some fun n => if n = 1 then 2 else if n = 2 then 3 else 0

theorem threeSymbols_gnuWellFormed (value : BitVec 64) :
    (threeSymbols true value).GnuWellFormed (fun _ => BitVec.allOnes 64) (fun _ => 1)
      (fun n => if n = 3 then 177677 else 177674) where
  isGnuHash := rfl
  bloomFilter_eq := rfl
  bucket_eq := rfl
  chain_eq := rfl
  nbucket_pos := Nat.one_pos
  ends := fun _ _ _ => ⟨2, by simp only [EndsWithin]; decide⟩
  hashed := by
    intro i hi _ n hn
    have hi : i = 0 := by
      simp only [threeSymbols] at hi
      omega
    have hn : n = 1 ∨ n = 2 ∨ n = 3 := by
      cases hn with
      | head => exact Or.inl rfl
      | next _ _ _ hn =>
        cases hn with
        | head => exact Or.inr (Or.inl rfl)
        | next _ _ _ hn =>
          cases hn with
          | head => exact Or.inr (Or.inr rfl)
          | next _ _ hmore _ => exact absurd hmore (by decide)
    subst hi
    have hbloom (hash : UInt32) :
        (threeSymbols true value).BloomBits (fun _ => BitVec.allOnes 64) hash := by
      simp only [BloomBits, BitVec.getLsbD_allOnes, decide_eq_true_eq]
      exact ⟨Nat.mod_lt _ (by decide), Nat.mod_lt _ (by decide)⟩
    rcases hn with rfl | rfl | rfl
    · exact ⟨nameF, ⟨by simp [threeSymbols], by simp [threeSymbols, nameF, isStringAt]⟩, by decide,
        Nat.mod_one _, hbloom _⟩
    · exact ⟨nameF, ⟨by simp [threeSymbols], by simp [threeSymbols, nameF, isStringAt]⟩, by decide,
        Nat.mod_one _, hbloom _⟩
    · exact ⟨nameG, ⟨by simp [threeSymbols], by simp [threeSymbols, nameG, isStringAt]⟩, by decide,
        Nat.mod_one _, hbloom _⟩

/-- A symbol at address 0 is enumerated, and looking it up gives null. -/
theorem findGnuSymbol_addressZero :
    (threeSymbols true 0).GnuWellFormed (fun _ => BitVec.allOnes 64) (fun _ => 1)
        (fun n => if n = 3 then 177677 else 177674) ∧
      (threeSymbols true 0).forEachGnuSymbol 3 = some [1, 2, 3] ∧
      (threeSymbols true 0).provides nameF 2 = true ∧
      (threeSymbols true 0).findGnuSymbol 3 nameF = some 0 :=
  ⟨threeSymbols_gnuWellFormed 0, by decide, by decide, by decide⟩

theorem threeSymbols_sysvWellFormed (value : BitVec 64) :
    (threeSymbols false value).SysvWellFormed (fun _ => 1)
      (fun n => if n = 1 then 2 else if n = 2 then 3 else 0) where
  isGnuHash := rfl
  bucket_eq := rfl
  chain_eq := rfl
  nbucket_pos := Nat.one_pos
  ends := fun _ _ => ⟨3, by decide⟩
  named := by
    intro i _ k _
    unfold threeSymbols
    dsimp only
    split_ifs <;> simp

/-- Either lookup passes over the symbol that is not defined. -/
theorem findSymbol_threeSymbols :
    let gnu := threeSymbols true 0x2000
    let sysv := threeSymbols false 0x2000
    (∃ N symbols, ∀ fuel, N ≤ fuel → gnu.forEachGnuSymbol fuel = some symbols ∧
      gnu.Finds nameF symbols (gnu.findGnuSymbol fuel nameF)) ∧
    gnu.findGnuSymbol 3 nameF = some 0x2000 ∧
    (∃ N symbols, ∀ fuel, N ≤ fuel →
      sysvChainSymbols (fun n => if n = 1 then 2 else if n = 2 then 3 else 0) fuel 1 =
          some symbols ∧
        sysv.Finds nameF symbols (sysv.findSysvSymbol fuel nameF)) ∧
    sysv.findSysvSymbol 3 nameF = some 0x2000 :=
  ⟨(findSymbol_agrees (threeSymbols true 0x2000) nameF).1 _ _ _ (threeSymbols_gnuWellFormed _),
    by decide,
    (findSymbol_agrees (threeSymbols false 0x2000) nameF).2 _ _ (threeSymbols_sysvWellFormed _),
    by decide⟩

end TinySymbolTable

end Berberis.TinyLoader
