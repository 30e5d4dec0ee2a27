import Berberis.GuestOsPrimitives.PendingSignals

/-!
# The Signal Queue

Any number of callers of `EnqueueSignal` push signals on a list that is shared, with a
load and compare-exchange steps that may also fail for no reason. The one caller of
`DequeueSignalUnsafe` takes this list with an exchange, puts it in front of a list of its
own, and finds the last signal with the smallest number there. Steps of different
callers come in any order.

## Theorems

* `SignalQueue.signalQueue_delivers`: Every run.
-/

namespace Berberis

open List

/-- A call of `EnqueueSignal`, with the node that was found first in the list. -/
structure EnqueueCall where
  signal : Signal
  produced : Option (Option Nat)

structure SignalQueue (τ : Type) where
  calls : τ → Option EnqueueCall
  numCalls : Nat
  produced : List Signal
  consumed : List Signal
  /-- What `DequeueSignalUnsafe` has taken, until it returns. -/
  taken : Option (List Signal)
  ready : List Signal
  enqueued : List Signal
  returned : List (List Signal × Option Signal)

namespace SignalQueue

inductive Event (τ : Type) where
  | call (t : τ) (signo : Nat)
  | load (t : τ)
  | compareExchange (t : τ) (spurious : Bool)
  | exchange
  | select

section

variable {τ : Type}

def start : SignalQueue τ := ⟨fun _ => none, 0, [], [], none, [], [], []⟩

def dequeued (q : SignalQueue τ) : List Signal := q.returned.filterMap (·.2)

def waiting (q : SignalQueue τ) : List Signal := q.enqueued.filter (· ∉ q.dequeued)

def inQueue (q : SignalQueue τ) : List Signal := q.produced ++ q.taken.getD [] ++ q.consumed

variable [DecidableEq τ] (addr : Nat → Nat)

def firstNode (signals : List Signal) : Option Nat := signals.head?.map fun s => addr s.id

def returns (q : SignalQueue τ) (consumed : List Signal) (result : Option Signal) :
    SignalQueue τ :=
  { q with taken := none, consumed := consumed, returned := q.returned ++ [(q.ready, result)] }

def setCall (q : SignalQueue τ) (t : τ) (call : Option EnqueueCall) : SignalQueue τ :=
  { q with calls := Function.update q.calls t call }

def step (q : SignalQueue τ) : Event τ → Option (SignalQueue τ)
  | .call t signo =>
    if (q.calls t).isNone then
      some { q.setCall t (some ⟨⟨q.numCalls, signo⟩, none⟩) with numCalls := q.numCalls + 1 }
    else none
  | .load t =>
    match q.calls t with
    | some ⟨signal, none⟩ => some (q.setCall t (some ⟨signal, some (firstNode addr q.produced)⟩))
    | _ => none
  | .compareExchange t spurious =>
    match q.calls t with
    | some ⟨signal, some produced⟩ =>
      if spurious = false ∧ firstNode addr q.produced = produced then
        some { q.setCall t none with
          produced := signal :: q.produced, enqueued := q.enqueued ++ [signal] }
      else some (q.setCall t (some ⟨signal, some (firstNode addr q.produced)⟩))
    | _ => none
  | .exchange =>
    if q.taken.isNone then
      some { q with taken := some q.produced, produced := [], ready := q.waiting }
    else none
  | .select =>
    q.taken.map fun taken =>
      match dequeueSignal (taken ++ q.consumed) with
      | none => q.returns q.consumed none
      | some (signal, rest) => q.returns rest (some signal)

end

section

variable {τ : Type} {q : SignalQueue τ} {signal : Signal}

/-- The first one of the ready signals with the smallest number, or nothing if no
    signal is ready. -/
def Delivers (ready : List Signal) : Option Signal → Prop
  | none => ready = []
  | some signal => ∃ before after, ready = before ++ signal :: after ∧
      (∀ s ∈ before, signal.signo < s.signo) ∧ ∀ s ∈ after, signal.signo ≤ s.signo

/-- Signals of calls are new, and no two calls have the same one. -/
structure Fresh (q : SignalQueue τ) : Prop where
  enqueued : ∀ s ∈ q.enqueued, s.id < q.numCalls
  call : ∀ t c, q.calls t = some c → c.signal.id < q.numCalls ∧ c.signal ∉ q.enqueued
  inj : ∀ t t' c c', q.calls t = some c → q.calls t' = some c' → c.signal = c'.signal → t = t'
  nodup : q.enqueued.Nodup

/-- The lists have the signals that wait, from the last one on. -/
structure Inv (q : SignalQueue τ) : Prop where
  fresh : Fresh q
  order : q.inQueue = q.waiting.reverse
  ready : ∀ taken, q.taken = some taken → taken ++ q.consumed = q.ready.reverse
  nodup : q.dequeued.Nodup
  dequeued : ∀ s ∈ q.dequeued, s ∈ q.enqueued
  delivers : ∀ r ∈ q.returned, Delivers r.1 r.2

theorem Inv.exchange (h : Inv q) (ht : q.taken = none) :
    Inv { q with taken := some q.produced, produced := [], ready := q.waiting } := by
  have hord : q.produced ++ q.consumed = q.waiting.reverse := by
    simpa [inQueue, ht] using h.order
  refine ⟨⟨h.fresh.enqueued, h.fresh.call, h.fresh.inj, h.fresh.nodup⟩, hord, ?_, h.nodup,
    h.dequeued, h.delivers⟩
  rintro taken ⟨⟩
  exact hord

theorem dequeued_returns (consumed : List Signal) (result : Option Signal) :
    (q.returns consumed result).dequeued = q.dequeued ++ result.toList := by
  unfold SignalQueue.dequeued returns
  rw [filterMap_append]
  cases result <;> rfl

theorem delivers_returns (h : Inv q) {consumed : List Signal} {result : Option Signal}
    (hres : Delivers q.ready result) :
    ∀ r ∈ (q.returns consumed result).returned, Delivers r.1 r.2 := by
  intro r hr
  rcases mem_append.mp hr with hr | hr
  · exact h.delivers r hr
  · rwa [mem_singleton.mp hr]

theorem Inv.returnsNone (h : Inv q) (ht : q.taken = some []) (hcons : q.consumed = []) :
    Inv (q.returns q.consumed none) := by
  have hdeq : (q.returns q.consumed none).dequeued = q.dequeued := by
    rw [dequeued_returns, Option.toList_none, append_nil]
  refine ⟨⟨h.fresh.enqueued, h.fresh.call, h.fresh.inj, h.fresh.nodup⟩, ?_, nofun, hdeq ▸ h.nodup,
    hdeq ▸ h.dequeued, delivers_returns h ?_⟩
  · unfold waiting
    rw [hdeq]
    exact (by simp [inQueue, returns, ht] : _ = q.inQueue).trans h.order
  · have hready := h.ready [] ht
    rw [hcons] at hready
    exact reverse_eq_nil_iff.mp hready.symm

theorem filter_ne_of_nodup {a b : List Signal} (h : (a ++ signal :: b).Nodup) :
    (a ++ signal :: b).filter (· ≠ signal) = a ++ b := by
  obtain ⟨-, hb, hdisj⟩ := nodup_append.mp h
  have hne : ∀ s ∈ b, s ≠ signal := fun s hs heq => (nodup_cons.mp hb).1 (heq ▸ hs)
  rw [filter_append, filter_cons_of_neg (by simp),
    filter_eq_self.mpr fun s hs => decide_eq_true (hdisj s hs signal (by simp)),
    filter_eq_self.mpr fun s hs => decide_eq_true (hne s hs)]

theorem Inv.returnsSome {taken before after : List Signal} (h : Inv q) (ht : q.taken = some taken)
    (hspl : taken ++ q.consumed = before ++ signal :: after)
    (hbef : ∀ s ∈ before, signal.signo ≤ s.signo)
    (haft : ∀ s ∈ after, signal.signo < s.signo) :
    Inv (q.returns (before ++ after) (some signal)) := by
  have hready := h.ready taken ht
  have hord : q.produced ++ before ++ signal :: after = q.waiting.reverse := by
    rw [append_assoc, ← hspl, ← h.order]
    simp [inQueue, ht]
  rw [hspl] at hready
  have hmem : signal ∈ q.waiting := by
    rw [← mem_reverse, ← hord]
    simp
  obtain ⟨hin, hnot⟩ := mem_filter.mp hmem
  rw [decide_eq_true_eq] at hnot
  have hdeq := dequeued_returns (q := q) (before ++ after) (some signal)
  refine ⟨⟨h.fresh.enqueued, h.fresh.call, h.fresh.inj, h.fresh.nodup⟩, ?_, nofun, ?_, ?_,
    delivers_returns h ⟨after.reverse, before.reverse, ?_, by simpa using haft,
      by simpa using hbef⟩⟩
  · -- The signal is the only one that does not wait any more.
    have hnod : (q.produced ++ before ++ signal :: after).Nodup := by
      rw [hord]
      exact nodup_reverse.mpr (h.fresh.nodup.filter _)
    have hwait : (q.returns (before ++ after) (some signal)).waiting =
        q.waiting.filter (· ≠ signal) := by
      unfold waiting
      rw [hdeq, filter_filter]
      refine filter_congr fun s _ => ?_
      simp [and_comm]
    rw [hwait, ← filter_reverse, ← hord, filter_ne_of_nodup hnod]
    simp [inQueue, returns]
  · rw [hdeq]
    simpa [nodup_append] using ⟨h.nodup, fun s hs heq => hnot (heq ▸ hs)⟩
  · intro s hs
    rw [hdeq] at hs
    rcases mem_append.mp hs with hs | hs
    · exact h.dequeued s hs
    · exact (mem_singleton.mp hs) ▸ hin
  · rw [← reverse_reverse q.ready, ← hready]
    simp

theorem start_inv : Inv (start : SignalQueue τ) where
  fresh := ⟨by simp [start], nofun, nofun, nodup_nil⟩
  order := rfl
  ready := nofun
  nodup := nodup_nil
  dequeued := by simp [start, SignalQueue.dequeued]
  delivers := by simp [start]

variable [DecidableEq τ] {t : τ} (addr : Nat → Nat)

theorem Fresh.setCall {c : EnqueueCall} (h : Fresh q) (hc : q.calls t = some c)
    (produced : Option (Option Nat)) : Fresh (q.setCall t (some ⟨c.signal, produced⟩)) := by
  -- Each call has the signal that it had.
  have hsame : ∀ u c', Function.update q.calls t (some ⟨c.signal, produced⟩) u = some c' →
      ∃ c₀, q.calls u = some c₀ ∧ c₀.signal = c'.signal := by
    intro u c' hu
    rw [Function.update_apply] at hu
    split_ifs at hu with htu
    · cases hu
      exact ⟨c, htu ▸ hc, rfl⟩
    · exact ⟨c', hu, rfl⟩
  refine ⟨h.enqueued, fun u c' hu => ?_, fun u u' c' c'' hu hu' heq => ?_, h.nodup⟩
  · obtain ⟨c₀, hc₀, hsign⟩ := hsame u c' hu
    exact hsign ▸ h.call u c₀ hc₀
  · obtain ⟨c₀, hc₀, hsign⟩ := hsame u c' hu
    obtain ⟨c₁, hc₁, hsign'⟩ := hsame u' c'' hu'
    exact h.inj u u' c₀ c₁ hc₀ hc₁ (by rw [hsign, hsign', heq])

theorem Inv.setCall {c : EnqueueCall} (h : Inv q) (hc : q.calls t = some c)
    (produced : Option (Option Nat)) : Inv (q.setCall t (some ⟨c.signal, produced⟩)) :=
  ⟨h.fresh.setCall hc produced, h.order, h.ready, h.nodup, h.dequeued, h.delivers⟩

theorem Inv.call (h : Inv q) (t : τ) (signo : Nat) :
    Inv { q.setCall t (some ⟨⟨q.numCalls, signo⟩, none⟩) with numCalls := q.numCalls + 1 } := by
  have hold : ∀ u c, Function.update q.calls t (some ⟨⟨q.numCalls, signo⟩, none⟩) u = some c →
      u = t ∧ c.signal = ⟨q.numCalls, signo⟩ ∨ u ≠ t ∧ q.calls u = some c := by
    intro u c hu
    rw [Function.update_apply] at hu
    split_ifs at hu with htu
    · cases hu
      exact Or.inl ⟨htu, rfl⟩
    · exact Or.inr ⟨htu, hu⟩
  have hnew : ∀ u c, q.calls u = some c → c.signal ≠ ⟨q.numCalls, signo⟩ := by
    intro u c hu heq
    have hlt := (h.fresh.call u c hu).1
    rw [heq] at hlt
    exact absurd hlt (Nat.lt_irrefl _)
  refine ⟨⟨fun s hs => Nat.lt_succ_of_lt (h.fresh.enqueued s hs), fun u c hu => ?_,
    fun u u' c c' hu hu' heq => ?_, h.fresh.nodup⟩, h.order, h.ready, h.nodup, h.dequeued,
    h.delivers⟩
  · rcases hold u c hu with ⟨-, hc⟩ | ⟨-, hu⟩
    · refine ⟨by simp [hc], fun hmem => ?_⟩
      exact absurd (h.fresh.enqueued _ hmem) (by simp [hc])
    · exact ⟨Nat.lt_succ_of_lt (h.fresh.call u c hu).1, (h.fresh.call u c hu).2⟩
  · rcases hold u c hu with ⟨htu, hc⟩ | ⟨-, hu⟩ <;>
      rcases hold u' c' hu' with ⟨htu', hc'⟩ | ⟨-, hu'⟩
    · exact htu.trans htu'.symm
    · exact absurd (heq ▸ hc) (hnew u' c' hu')
    · exact absurd (heq.trans hc') (hnew u c hu)
    · exact h.fresh.inj u u' c c' hu hu' heq

theorem Inv.push {c : EnqueueCall} (h : Inv q) (hc : q.calls t = some c) :
    Inv { q.setCall t none with
      produced := c.signal :: q.produced, enqueued := q.enqueued ++ [c.signal] } := by
  obtain ⟨hlt, hnew⟩ := h.fresh.call t c hc
  have hold : ∀ u c', Function.update q.calls t none u = some c' → u ≠ t ∧ q.calls u = some c' := by
    intro u c' hu
    rw [Function.update_apply] at hu
    split_ifs at hu with htu
    exact ⟨htu, hu⟩
  refine ⟨⟨fun s hs => ?_, fun u c' hu => ?_, fun u u' c' c'' hu hu' heq => ?_, ?_⟩, ?_, h.ready,
    h.nodup, fun s hs => mem_append_left _ (h.dequeued s hs), h.delivers⟩
  · rcases mem_append.mp hs with hs | hs
    · exact h.fresh.enqueued s hs
    · rwa [mem_singleton.mp hs]
  · obtain ⟨hne, hu⟩ := hold u c' hu
    refine ⟨(h.fresh.call u c' hu).1, fun hmem => ?_⟩
    rcases mem_append.mp hmem with hmem | hmem
    · exact (h.fresh.call u c' hu).2 hmem
    · exact hne (h.fresh.inj u t c' c hu hc (mem_singleton.mp hmem))
  · exact h.fresh.inj u u' c' c'' (hold u c' hu).2 (hold u' c'' hu').2 heq
  · simpa [nodup_append] using ⟨h.fresh.nodup, fun s hs heq => hnew (heq ▸ hs)⟩
  · have hwaits : c.signal ∉ q.dequeued := fun hmem => hnew (h.dequeued _ hmem)
    show c.signal :: q.inQueue = ((q.enqueued ++ [c.signal]).filter (· ∉ q.dequeued)).reverse
    rw [h.order, filter_append, filter_singleton]
    simp [hwaits, waiting]

theorem step_inv (q : SignalQueue τ) (event : Event τ) (q' : SignalQueue τ) (h : Inv q)
    (hstep : step addr q event = some q') : Inv q' := by
  cases event with
  | call t signo =>
    simp only [step] at hstep
    split_ifs at hstep
    obtain rfl := Option.some.inj hstep
    exact h.call t signo
  | load t =>
    simp only [step] at hstep
    split at hstep
    · rename_i signal ht
      obtain rfl := Option.some.inj hstep
      exact h.setCall ht _
    · cases hstep
  | compareExchange t spurious =>
    simp only [step] at hstep
    split at hstep
    · rename_i signal produced ht
      split_ifs at hstep
      · obtain rfl := Option.some.inj hstep
        exact h.push ht
      · obtain rfl := Option.some.inj hstep
        exact h.setCall ht _
    · cases hstep
  | exchange =>
    simp only [step] at hstep
    split_ifs at hstep with ht
    obtain rfl := Option.some.inj hstep
    exact h.exchange (Option.isNone_iff_eq_none.mp ht)
  | select =>
    obtain ⟨taken, ht, rfl⟩ := Option.map_eq_some_iff.mp hstep
    cases hdeq : dequeueSignal (taken ++ q.consumed) with
    | none =>
      have hnil : taken = [] ∧ q.consumed = [] := by
        rw [← append_eq_nil_iff]
        cases hl : taken ++ q.consumed with
        | nil => rfl
        | cons first rest => simp [hl, dequeueSignal] at hdeq
      exact h.returnsNone (hnil.1 ▸ ht) hnil.2
    | some found =>
      obtain ⟨before, after, hrest, hspl, hbef, haft⟩ :=
        @dequeueSignal_split _ found.2 found.1 hdeq
      dsimp only
      rw [hrest]
      exact h.returnsSome ht hspl hbef haft

/-- However the steps of the callers come one after another: each signal that was
    enqueued was returned by one call of `DequeueSignalUnsafe` or is still in the queue,
    and each of these calls returned, of the signals that were enqueued before its
    exchange and had not been returned, the first one with the smallest number. -/
theorem signalQueue_delivers (events : List (Event τ)) {q : SignalQueue τ}
    (h : Lib.run (step addr) start events = some q) :
    q.enqueued.Nodup ∧ (q.dequeued ++ q.inQueue).Perm q.enqueued ∧
      ∀ r ∈ q.returned, Delivers r.1 r.2 := by
  have hinv := Lib.run_preserves (step addr) Inv (step_inv addr) events start q start_inv h
  refine ⟨hinv.fresh.nodup, ?_, hinv.delivers⟩
  have hdequeued : q.dequeued.Perm (q.enqueued.filter (· ∈ q.dequeued)) := by
    refine (perm_ext_iff_of_nodup hinv.nodup (hinv.fresh.nodup.filter _)).mpr fun s => ?_
    simpa using hinv.dequeued s
  rw [hinv.order]
  refine (hdequeued.append (reverse_perm q.waiting)).trans ?_
  simpa [waiting] using filter_append_perm (fun s => decide (s ∈ q.dequeued)) q.enqueued

end

/-- The second one of two calls fails first, as the list has changed. -/
def twoCalls : List (Event Bool) :=
  [.call true 11, .call false 5, .load true, .load false, .compareExchange true false,
    .compareExchange false false, .compareExchange false false, .exchange, .select]

theorem signalQueue_delivers_twoCalls : ∃ q, Lib.run (step id) start twoCalls = some q ∧
      q.returned = [([⟨0, 11⟩, ⟨1, 5⟩], some ⟨1, 5⟩)] ∧ q.inQueue = [⟨0, 11⟩] ∧
      ∀ r ∈ q.returned, Delivers r.1 r.2 :=
  ⟨_, rfl, rfl, rfl, (signalQueue_delivers id twoCalls rfl).2.2⟩

end SignalQueue

end Berberis
