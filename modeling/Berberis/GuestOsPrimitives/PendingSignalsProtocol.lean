import Berberis.GuestOsPrimitives.PendingSignals

/-!
# No Pending Signal Is Lost

Whether pending signals are enabled follows from the stack: a frame is entered
and left with them as its caller has them, and a host signal that finds them
enabled leaves them so. What is queued is looked after: the status says that
signals are present, or some frame of the stack is going to look at the queue
again or to set the status.

## Theorems

* `SignalThread.step_inv`: One step.
* `SignalThread.pendingSignals_kept`: Every run.
-/

namespace Berberis

open PendingSignalsStatus List Lib

theorem dequeueSignal_perm {signals rest : List Signal} {signal : Signal}
    (h : dequeueSignal signals = some (signal, rest)) : (signal :: rest).Perm signals := by
  obtain ⟨before, after, rfl, rfl, -⟩ := dequeueSignal_split h
  exact perm_middle.symm

theorem dequeueSignal_eq_none {signals : List Signal} (h : dequeueSignal signals = none) :
    signals = [] := by
  cases signals with
  | nil => rfl
  | cons first signals => cases h

namespace SignalThread

def enabled : PendingSignalsStatus → Bool
  | kPendingSignalsDisabled => false
  | _ => true

def ValidSigno (signo : Nat) : Prop := 0 < signo ∧ signo ≤ kGuestNsig

def ScopesOk (base : Bool) : List Scope → Prop
  | [] => True
  | .enabler prev :: scopes => prev = enabledIn base scopes ∧ ScopesOk base scopes
  | .disabler prev :: scopes => prev = enabledIn base scopes ∧ ScopesOk base scopes

/-- Code that has no guest thread yet, and host signals that have just arrived. -/
def bare : List Frame → Bool
  | [.code false []] => true
  | .attach _ :: rest => bare rest
  | _ => false

def Active : List Frame → Prop
  | [] => False
  | .opening _ _ :: _ => False
  | .closing _ _ :: _ => False
  | .checking _ _ :: _ => False
  | .implRun _ :: _ => False
  | .disabling _ :: _ => False
  | _ => True

/-- Where code is called from: nowhere, or the delivery of a signal. -/
def Caller (rest : List Frame) : Prop := rest = [] ∨ ∃ signal rest', rest = .implRun signal :: rest'

def Looping (rest : List Frame) : Prop :=
  rest.head? = some .processAndDisablePendingSignals ∨ rest.head? = some .processPendingSignals

/-- The shape of the stack, with whether pending signals are enabled when the
    frame on top runs or goes on. -/
inductive Stack : List Frame → Bool → Prop where
  | nil (base : Bool) : Stack [] base
  | code {rest : List Frame} {base : Bool} {scopes : List Scope} (h : Stack rest base)
      (hcaller : Caller rest) (hscopes : ScopesOk base scopes) :
      Stack (.code base scopes :: rest) (enabledIn base scopes)
  | opening {rest : List Frame} {base : Bool} {scopes : List Scope} (h : Stack rest base)
      (hcaller : Caller rest) (hscopes : ScopesOk base scopes) :
      Stack (.processAndDisablePendingSignals :: .opening base scopes :: rest)
        (enabledIn base scopes)
  | closing {rest : List Frame} {base : Bool} {scopes : List Scope} (h : Stack rest base)
      (hcaller : Caller rest) (hscopes : ScopesOk base scopes)
      (hprev : enabledIn base scopes = false) :
      Stack (.processAndDisablePendingSignals :: .closing base scopes :: rest) true
  | disabling {rest : List Frame} {attached : Bool} (h : Stack rest false) (hactive : Active rest)
      (hbare : attached = true → bare rest = true) :
      Stack (.processAndDisablePendingSignals :: .disabling attached :: rest) true
  | checking {rest : List Frame} {base : Bool} {scopes : List Scope} (h : Stack rest base)
      (hcaller : Caller rest) (hscopes : ScopesOk base scopes)
      (henabled : enabledIn base scopes = true) :
      Stack (.processPendingSignals :: .checking base scopes :: rest) true
  | implStore {rest : List Frame} (h : Stack rest true)
      (hloop : Looping rest) : Stack (.implStore :: rest) true
  | implTake {rest : List Frame} (h : Stack rest true)
      (hloop : Looping rest) : Stack (.implTake :: rest) true
  | implSelect {rest : List Frame} {taken : List Signal} (h : Stack rest true)
      (hloop : Looping rest) : Stack (.implSelect taken :: rest) true
  | implRun {rest : List Frame} {signal : Signal} (h : Stack rest true)
      (hloop : Looping rest) : Stack (.implRun signal :: rest) true
  | attach {rest : List Frame} {e : Bool} {signo : Nat} (h : Stack rest e)
      (hactive : Active rest) (hsigno : ValidSigno signo) : Stack (.attach signo :: rest) e
  | test {rest : List Frame} {e : Bool} {signo : Nat} {attached : Bool} (h : Stack rest e)
      (hactive : Active rest) (hbare : attached = true → bare rest = true)
      (hsigno : ValidSigno signo) :
      Stack (.test signo attached :: rest) e
  | enqueue {rest : List Frame} {signo : Nat} {attached prev : Bool} (h : Stack rest prev)
      (hactive : Active rest) (hbare : attached = true → bare rest = true)
      (hsigno : ValidSigno signo) :
      Stack (.enqueue signo attached prev :: rest) true
  | exchange {rest : List Frame} {attached prev : Bool} (h : Stack rest prev)
      (hactive : Active rest) (hbare : attached = true → bare rest = true) :
      Stack (.exchange attached prev :: rest) true
  | finish {rest : List Frame} {attached prev : Bool} (h : Stack rest prev)
      (hactive : Active rest) (hbare : attached = true → bare rest = true) :
      Stack (.finish attached prev :: rest) true
  | detach {rest : List Frame} {attached : Bool} (h : Stack rest false)
      (hactive : Active rest) (hbare : attached = true → bare rest = true) :
      Stack (.detach attached :: rest) false

/-- In generated code, apart from host signals that have arrived there. -/
def Inside : List Frame → Prop
  | .code base scopes :: _ => enabledIn base scopes = true
  | .attach _ :: rest => Inside rest
  | .test _ _ :: rest => Inside rest
  | .enqueue _ _ prev :: rest => prev = true ∧ Inside rest
  | .exchange _ prev :: rest => prev = true ∧ Inside rest
  | .finish _ prev :: rest => prev = true ∧ Inside rest
  | _ => False

/-- Signals taken from the produced ones that are not among the consumed ones yet. -/
def taken : Frame → List Signal
  | .implSelect signals => signals
  | _ => []

/-- The frame is going to look at the queue again, or to say that signals are present. -/
def Responsible (consumed : List Signal) : Frame → Prop
  | .implStore => True
  | .implTake => True
  | .implSelect signals => signals ++ consumed ≠ []
  | .implRun _ => True
  | .exchange _ _ => True
  | _ => False

def pending (t : SignalThread) : List Signal := t.produced ++ t.consumed ++ t.stack.flatMap taken

/-- The stack and the flags. -/
structure Shape (t : SignalThread) : Prop where
  stack : Stack t.stack (enabled t.status)
  active : Active t.stack
  bare : t.live = false → bare t.stack = true
  inside : t.insideGeneratedCode = true → Inside t.stack

def LookedAfter (consumed : List Signal) (stack : List Frame) : Prop :=
  ∃ f ∈ stack, Responsible consumed f

structure Queue (t : SignalThread) : Prop where
  looked : LookedAfter t.consumed t.stack ∨ t.status = kPendingSignalsPresent ∨
    t.produced = [] ∧ t.consumed = []
  account : (t.dequeued ++ t.pending).Perm t.enqueued
  ids : ∀ s ∈ t.enqueued, s.id < t.enqueued.length
  nodup : t.enqueued.Nodup
  signos : ∀ s ∈ t.enqueued, ValidSigno s.signo

structure Inv (t : SignalThread) : Prop where
  shape : Shape t
  queue : Queue t

@[simp]
theorem lookedAfter_cons (consumed : List Signal) (f : Frame) (stack : List Frame) :
    LookedAfter consumed (f :: stack) ↔ Responsible consumed f ∨ LookedAfter consumed stack := by
  simp [LookedAfter]

variable {rest stack : List Frame} {e : Bool} {t t' : SignalThread}

theorem Looping.eq_cons (h : Looping rest) : ∃ rest',
    rest = .processAndDisablePendingSignals :: rest' ∨ rest = .processPendingSignals :: rest' :=
  h.elim (fun hl => (head?_eq_some_iff.mp hl).imp fun _ => Or.inl)
    fun hl => (head?_eq_some_iff.mp hl).imp fun _ => Or.inr

theorem Looping.active (h : Looping rest) : Active rest := by
  obtain ⟨rest', rfl | rfl⟩ := h.eq_cons
  · trivial
  · trivial

theorem not_bare_of_looping (h : Looping rest) : bare rest = false := by
  obtain ⟨rest', rfl | rfl⟩ := h.eq_cons
  · rfl
  · rfl

theorem not_inside_of_looping (h : Looping rest) : ¬ Inside rest := by
  obtain ⟨rest', rfl | rfl⟩ := h.eq_cons
  · exact id
  · exact id

theorem enabled_eq_false_iff {status : PendingSignalsStatus} :
    enabled status = false ↔ status = kPendingSignalsDisabled := by
  cases status <;> simp [enabled]

theorem enabled_testAndEnable (status : PendingSignalsStatus) :
    (testAndEnable status).1 = enabled status ∧ enabled (testAndEnable status).2 = true ∧
      (status = kPendingSignalsPresent → (testAndEnable status).2 = kPendingSignalsPresent) := by
  cases status <;> exact ⟨rfl, rfl, by simp [testAndEnable]⟩

theorem bare_spec (h : Stack stack e) (hb : bare stack = true) :
    e = false ∧ Active stack ∧ ∀ consumed, ¬ LookedAfter consumed stack := by
  induction h with
  | @code rest base scopes _ hcal _ =>
    cases rest with
    | nil =>
      cases base with
      | true => simp [bare] at hb
      | false =>
        cases scopes with
        | nil => exact ⟨rfl, trivial, fun consumed => by simp [LookedAfter, Responsible]⟩
        | cons _ _ => simp [bare] at hb
    | cons _ _ => simp [bare] at hb
  | attach _ _ _ ih =>
    obtain ⟨he, -, hlook⟩ := ih hb
    exact ⟨he, trivial, fun consumed => by simp [hlook consumed, Responsible]⟩
  | _ => simp [bare] at hb

theorem inside_enabled (h : Stack stack e) (hi : Inside stack) : e = true := by
  induction h with
  | code _ _ _ => exact hi
  | attach _ _ _ ih | test _ _ _ _ ih => exact ih hi
  | enqueue | exchange | finish => rfl
  | _ => exact hi.elim

theorem Queue.of_same (h : Queue t) (hprod : t'.produced = t.produced)
    (hcons : t'.consumed = t.consumed) (henq : t'.enqueued = t.enqueued)
    (hdeq : t'.dequeued = t.dequeued) (htak : t'.stack.flatMap taken = t.stack.flatMap taken)
    (hlook : LookedAfter t.consumed t.stack → LookedAfter t.consumed t'.stack)
    (hst : t.status = kPendingSignalsPresent →
      t'.status = kPendingSignalsPresent ∨ LookedAfter t.consumed t'.stack) : Queue t' := by
  refine ⟨?_, ?_, by rw [henq]; exact h.ids, by rw [henq]; exact h.nodup,
    by rw [henq]; exact h.signos⟩
  · rw [hcons, hprod]
    rcases h.looked with hl | hp | hemp
    · exact Or.inl (hlook hl)
    · exact (hst hp).elim (fun hp' => Or.inr (Or.inl hp')) Or.inl
    · exact Or.inr (Or.inr hemp)
  · unfold pending
    rw [hdeq, hprod, hcons, htak, henq]
    exact h.account

theorem Inv.at (h : Inv t) (hs : t.stack = stack) : Stack stack (enabled t.status) ∧
    (t.live = false → bare stack = true) ∧ (t.insideGeneratedCode = true → Inside stack) :=
  hs ▸ ⟨h.shape.stack, h.shape.bare, h.shape.inside⟩

/-- Where there is no guest thread there is nothing in its queue. -/
theorem Inv.of_not_live (h : Inv t) (hlive : t.live = false) :
    t.status = kPendingSignalsDisabled ∧ t.produced = [] ∧ t.consumed = [] := by
  obtain ⟨he, -, hlook⟩ := bare_spec h.shape.stack (h.shape.bare hlive)
  have hst := enabled_eq_false_iff.mp he
  rcases h.queue.looked with hl | hp | hemp
  · exact absurd hl (hlook _)
  · rw [hp] at hst
    cases hst
  · exact ⟨hst, hemp⟩

/-- A frame that is neither bare nor inside generated code makes way for others. -/
theorem Inv.replace {status : PendingSignalsStatus} (h : Inv t) (hbare : bare t.stack = false)
    (hout : ¬ Inside t.stack) (hstack : Stack stack (enabled status)) (hact : Active stack)
    (htak : stack.flatMap taken = t.stack.flatMap taken)
    (hlook : LookedAfter t.consumed t.stack → LookedAfter t.consumed stack)
    (hst : t.status = kPendingSignalsPresent →
      status = kPendingSignalsPresent ∨ LookedAfter t.consumed stack) :
    Inv { t with status := status, stack := stack } := by
  refine ⟨⟨hstack, hact, fun hl => ?_, fun hi => absurd (h.shape.inside hi) hout⟩,
    h.queue.of_same rfl rfl rfl rfl htak hlook hst⟩
  rw [h.shape.bare hl] at hbare
  cases hbare

/-! ### Host signals -/

section Steps

variable {t : SignalThread} {rest : List Frame} {attached prev : Bool} {signo : Nat}

theorem run_attach (h : Inv t) (hs : t.stack = .attach signo :: rest) :
    ∃ t', t.runFrame = some t' ∧ Inv t' := by
  obtain ⟨hstack, hbare, hin⟩ := h.at hs
  generalize he : enabled t.status = e at hstack
  cases hstack with
  | attach hrest hact hsigno =>
    cases hlive : t.live with
    | true =>
      refine ⟨{ t with stack := .test signo false :: rest }, by simp [runFrame, hs, hlive], ?_, ?_⟩
      · exact ⟨he ▸ Stack.test hrest hact (fun hc => by cases hc) hsigno, trivial,
          fun hl => absurd hl (by simp [hlive]), hin⟩
      · exact h.queue.of_same rfl rfl rfl rfl (by simp [hs, taken])
          (by simp [hs, Responsible]) Or.inl
    | false =>
      have hb : bare rest = true := hbare hlive
      obtain ⟨rfl, -⟩ := bare_spec hrest hb
      obtain ⟨hdis, hprod, hcons⟩ := h.of_not_live hlive
      refine ⟨{ t with
        live := true
        status := kPendingSignalsDisabled
        insideGeneratedCode := false
        produced := []
        consumed := []
        stack := .test signo true :: rest }, by simp [runFrame, hs, hlive], ?_, ?_⟩
      · exact ⟨Stack.test hrest hact (fun _ => hb) hsigno, trivial, fun hl => (by cases hl),
          fun hi => (by cases hi)⟩
      · exact h.queue.of_same hprod.symm hcons.symm rfl rfl (by simp [hs, taken])
          (by simp [hs, Responsible]) (fun hp => by rw [hdis] at hp; cases hp)

theorem run_test (h : Inv t) (hs : t.stack = .test signo attached :: rest) :
    ∃ t', t.runFrame = some t' ∧ Inv t' := by
  obtain ⟨hstack, hbare, hin⟩ := h.at hs
  generalize he : enabled t.status = e at hstack
  cases hstack with
  | test hrest hact hb hsigno =>
    obtain ⟨htest, htest', htest''⟩ := enabled_testAndEnable t.status
    rw [he] at htest
    refine ⟨{ t with
      status := (testAndEnable t.status).2
      stack := .enqueue signo attached (testAndEnable t.status).1 :: rest },
      by simp [runFrame, hs], ?_, ?_⟩
    · refine ⟨?_, trivial, fun hl => by simpa [bare] using hbare hl, fun hi => ?_⟩
      · rw [htest, htest']
        exact Stack.enqueue hrest hact hb hsigno
      · exact ⟨htest.trans (inside_enabled hrest (hin hi)), hin hi⟩
    · exact h.queue.of_same rfl rfl rfl rfl (by simp [hs, taken]) (by simp [hs, Responsible])
        (fun hp => Or.inl (htest'' hp))

theorem run_enqueue (h : Inv t) (hs : t.stack = .enqueue signo attached prev :: rest) :
    ∃ t', t.runFrame = some t' ∧ Inv t' := by
  have hq := h.queue
  obtain ⟨hstack, hbare, hin⟩ := h.at hs
  generalize he : enabled t.status = e at hstack
  cases hstack with
  | enqueue hrest hact hb hsigno =>
    refine ⟨{ t with
      produced := ⟨t.enqueued.length, signo⟩ :: t.produced
      enqueued := t.enqueued ++ [⟨t.enqueued.length, signo⟩]
      stack := .exchange attached prev :: rest }, by simp [runFrame, hs], ?_, ?_⟩
    · exact ⟨he ▸ Stack.exchange hrest hact hb, trivial,
        fun hl => by simpa [bare] using hbare hl, hin⟩
    · refine ⟨Or.inl (by simp [Responsible]), ?_, ?_, ?_, ?_⟩
      · have hacc := hq.account
        simp only [pending, hs, flatMap_cons, taken, nil_append] at hacc ⊢
        refine List.Perm.trans ?_ (hacc.append_right _)
        refine perm_middle.trans ?_
        have hmove := (perm_append_singleton (⟨t.enqueued.length, signo⟩ : Signal)
          (t.dequeued ++ (t.produced ++ (t.consumed ++ rest.flatMap taken)))).symm
        simpa using hmove
      · intro s hmem
        rcases mem_append.mp hmem with hmem | hmem
        · have hlt := hq.ids s hmem
          simp only [length_append]
          omega
        · rw [mem_singleton.mp hmem]
          simp
      · refine nodup_append.mpr ⟨hq.nodup, nodup_singleton _, ?_⟩
        intro s hmem s' hmem' heq
        have hlt := hq.ids s hmem
        rw [heq, mem_singleton.mp hmem'] at hlt
        simp at hlt
      · intro s hmem
        rcases mem_append.mp hmem with hmem | hmem
        · exact hq.signos s hmem
        · rw [mem_singleton.mp hmem]
          exact hsigno

theorem run_exchange (h : Inv t) (hs : t.stack = .exchange attached prev :: rest) :
    ∃ t', t.runFrame = some t' ∧ Inv t' := by
  obtain ⟨hstack, hbare, hin⟩ := h.at hs
  generalize he : enabled t.status = e at hstack
  cases hstack with
  | exchange hrest hact hb =>
    have hne : t.status ≠ kPendingSignalsDisabled := by
      intro hd
      rw [hd] at he
      cases he
    refine ⟨{ t with status := kPendingSignalsPresent, stack := .finish attached prev :: rest },
      by simp [runFrame, hs, hne], ?_, ?_⟩
    · exact ⟨Stack.finish hrest hact hb, trivial, fun hl => by simpa [bare] using hbare hl, hin⟩
    · refine ⟨Or.inr (Or.inl rfl), ?_, h.queue.ids, h.queue.nodup, h.queue.signos⟩
      have hacc := h.queue.account
      simpa only [pending, hs, flatMap_cons, taken] using hacc

theorem run_finish (h : Inv t) (hs : t.stack = .finish attached prev :: rest) :
    ∃ t', t.runFrame = some t' ∧ Inv t' := by
  obtain ⟨hstack, hbare, hin⟩ := h.at hs
  generalize he : enabled t.status = e at hstack
  cases hstack with
  | finish hrest hact hb =>
    cases prev with
    | true =>
      have hatt : attached = false := by
        cases attached with
        | false => rfl
        | true => exact absurd (bare_spec hrest (hb rfl)).1 (by simp)
      refine ⟨{ t with stack := rest }, by simp [runFrame, hs, hatt], ?_, ?_⟩
      · exact ⟨he ▸ hrest, hact, fun hl => by simpa [bare] using hbare hl, fun hi => (hin hi).2⟩
      · exact h.queue.of_same rfl rfl rfl rfl (by simp [hs, taken])
          (by simp [hs, Responsible]) Or.inl
    | false =>
      have hout : t.insideGeneratedCode = false := by
        cases hi : t.insideGeneratedCode with
        | false => rfl
        | true => exact absurd (hin hi).1 (by simp)
      refine ⟨{ t with stack := .processAndDisablePendingSignals :: .disabling attached :: rest },
        by simp [runFrame, hs, hout], ?_, ?_⟩
      · exact ⟨he ▸ Stack.disabling hrest hact hb, trivial,
          fun hl => by simpa [bare] using hbare hl,
          fun hi => by rw [hout] at hi; cases hi⟩
      · exact h.queue.of_same rfl rfl rfl rfl (by simp [hs, taken])
          (by simp [hs, Responsible]) Or.inl

theorem run_detach (h : Inv t) (hs : t.stack = .detach attached :: rest) :
    ∃ t', t.runFrame = some t' ∧ Inv t' := by
  obtain ⟨hstack, hbare, hin⟩ := h.at hs
  generalize he : enabled t.status = e at hstack
  cases hstack with
  | detach hrest hact hb =>
    refine ⟨{ t with live := t.live && !attached, stack := rest }, by simp [runFrame, hs], ?_, ?_⟩
    · refine ⟨he ▸ hrest, hact, fun hl => ?_, fun hi => (hin hi).elim⟩
      cases attached with
      | true => exact hb rfl
      | false =>
        rw [Bool.not_false, Bool.and_true] at hl
        simpa [bare] using hbare hl
    · exact h.queue.of_same rfl rfl rfl rfl (by simp [hs, taken])
        (by simp [hs, Responsible]) Or.inl

end Steps

/-! ### Processing -/

section Processing

variable {t : SignalThread} {rest : List Frame}

theorem push_impl (h : Inv t) (hloop : Looping t.stack)
    (hst : t.status ≠ kPendingSignalsDisabled) : Inv { t with stack := .implStore :: t.stack } := by
  have henabl : enabled t.status = true :=
    Bool.not_eq_false _ ▸ fun he => hst (enabled_eq_false_iff.mp he)
  have hstack : Stack (.implStore :: t.stack) (enabled t.status) := by
    rw [henabl]
    exact Stack.implStore (henabl ▸ h.shape.stack) hloop
  exact h.replace (not_bare_of_looping hloop) (not_inside_of_looping hloop) hstack trivial
    (by simp [taken]) (fun hl => (lookedAfter_cons _ _ _).mpr (Or.inr hl)) Or.inl

theorem run_disable (h : Inv t) (hs : t.stack = .processAndDisablePendingSignals :: rest) :
    ∃ t', t.runFrame = some t' ∧ Inv t' := by
  obtain ⟨hstack, -, -⟩ := h.at hs
  have hloop : Looping t.stack := Or.inl (by rw [hs]; rfl)
  -- What the frame below the loop makes of it, with pending signals disabled.
  have hnext := fun status stack => @Inv.replace stack t status h (not_bare_of_looping hloop)
    (not_inside_of_looping hloop)
  cases hst : t.status with
  | kPendingSignalsPresent =>
    refine ⟨{ t with stack := .implStore :: t.stack }, by simp [runFrame, hs, hst], ?_⟩
    exact push_impl h hloop (by simp [hst])
  | kPendingSignalsEnabled =>
    generalize he : enabled t.status = e at hstack
    rw [hst] at he
    cases hstack with
    | @opening rest base scopes hrest hcal hscop =>
      have hcode : Stack (.code base (.disabler true :: scopes) :: rest)
          (enabledIn base (.disabler true :: scopes)) :=
        Stack.code hrest hcal ⟨he, hscop⟩
      refine ⟨_, by simp [runFrame, hs, hst, returnFromDisable]; rfl, ?_⟩
      exact hnext kPendingSignalsDisabled _ hcode trivial (by simp [hs, taken])
        (by simp [hs, Responsible]) (by simp [hst])
    | @closing rest base scopes hrest hcal hscop hprev =>
      have hcode := Stack.code hrest hcal hscop
      rw [hprev] at hcode
      refine ⟨_, by simp [runFrame, hs, hst, returnFromDisable]; rfl, ?_⟩
      exact hnext kPendingSignalsDisabled _ hcode trivial (by simp [hs, taken])
        (by simp [hs, Responsible]) (by simp [hst])
    | @disabling rest attached hrest hact hb =>
      refine ⟨_, by simp [runFrame, hs, hst, returnFromDisable]; rfl, ?_⟩
      exact hnext kPendingSignalsDisabled _ (Stack.detach hrest hact hb) trivial
        (by simp [hs, taken]) (by simp [hs, Responsible]) (by simp [hst])
  | kPendingSignalsDisabled =>
    generalize he : enabled t.status = e at hstack
    rw [hst] at he
    cases hstack with
    | @opening rest base scopes hrest hcal hscop =>
      have hcode : Stack (.code base (.disabler false :: scopes) :: rest)
          (enabledIn base (.disabler false :: scopes)) :=
        Stack.code hrest hcal ⟨he, hscop⟩
      refine ⟨{ t with stack := .code base (.disabler false :: scopes) :: rest },
        by simp [runFrame, hs, hst, returnFromDisable], ?_⟩
      exact hnext t.status _ (hst ▸ hcode) trivial (by simp [hs, taken])
        (by simp [hs, Responsible]) (by simp [hst])
    | closing | disabling => cases he

theorem run_pending (h : Inv t) (hs : t.stack = .processPendingSignals :: rest) :
    ∃ t', t.runFrame = some t' ∧ Inv t' := by
  obtain ⟨hstack, -, -⟩ := h.at hs
  have hloop : Looping t.stack := Or.inr (by rw [hs]; rfl)
  generalize he : enabled t.status = e at hstack
  cases hstack with
  | @checking rest base scopes hrest hcal hscop henabl =>
    cases hst : t.status with
    | kPendingSignalsDisabled =>
      rw [hst] at he
      cases he
    | kPendingSignalsPresent =>
      refine ⟨{ t with stack := .implStore :: t.stack }, by simp [runFrame, hs, hst], ?_⟩
      exact push_impl h hloop (by simp [hst])
    | kPendingSignalsEnabled =>
      refine ⟨{ t with stack := .code base scopes :: rest }, by simp [runFrame, hs, hst], ?_⟩
      refine h.replace (not_bare_of_looping hloop) (not_inside_of_looping hloop) ?_ trivial
        (by simp [hs, taken]) (by simp [hs, Responsible]) (by simp [hst])
      rw [he, ← henabl]
      exact Stack.code hrest hcal hscop

theorem run_implStore (h : Inv t) (hs : t.stack = .implStore :: rest) :
    ∃ t', t.runFrame = some t' ∧ Inv t' := by
  obtain ⟨hstack, -, -⟩ := h.at hs
  generalize he : enabled t.status = e at hstack
  cases hstack with
  | implStore hrest hloop =>
    refine ⟨{ t with status := kPendingSignalsEnabled, stack := .implTake :: rest },
      by simp [runFrame, hs], ?_⟩
    exact h.replace (by rw [hs]; rfl) (by rw [hs]; exact id) (Stack.implTake hrest hloop) trivial
      (by simp [hs, taken]) (by simp [Responsible]) (fun _ => Or.inr (by simp [Responsible]))

theorem run_implTake (h : Inv t) (hs : t.stack = .implTake :: rest) :
    ∃ t', t.runFrame = some t' ∧ Inv t' := by
  have hq := h.queue
  obtain ⟨hstack, hbare, hin⟩ := h.at hs
  generalize he : enabled t.status = e at hstack
  cases hstack with
  | implTake hrest hloop =>
    refine ⟨{ t with produced := [], stack := .implSelect t.produced :: rest },
      by simp [runFrame, hs], ?_, ?_, ?_, hq.ids, hq.nodup, hq.signos⟩
    · exact ⟨he ▸ Stack.implSelect hrest hloop, trivial,
        fun hl => absurd (hbare hl) (by simp [bare]), fun hi => (hin hi).elim⟩
    · by_cases hemp : t.produced ++ t.consumed = []
      · exact Or.inr (Or.inr ⟨rfl, (append_eq_nil_iff.mp hemp).2⟩)
      · exact Or.inl ((lookedAfter_cons _ _ _).mpr (Or.inl hemp))
    · have hacc := hq.account
      simp only [pending, hs, flatMap_cons, taken] at hacc ⊢
      rw [perm_iff_count] at hacc ⊢
      intro a
      have hcount := hacc a
      simp only [count_append, count_nil] at hcount ⊢
      omega

theorem run_implSelect {signals : List Signal} (h : Inv t)
    (hs : t.stack = .implSelect signals :: rest) : ∃ t', t.runFrame = some t' ∧ Inv t' := by
  have hq := h.queue
  obtain ⟨hstack, hbare, hins⟩ := h.at hs
  generalize he : enabled t.status = e at hstack
  cases hstack with
  | implSelect hrest hloop =>
    cases hdeq : dequeueSignal (signals ++ t.consumed) with
    | none =>
      have hemp := dequeueSignal_eq_none hdeq
      refine ⟨{ t with stack := rest }, by simp [runFrame, hs, hdeq], ?_⟩
      refine h.replace (by rw [hs]; rfl) (by rw [hs]; exact id) (he ▸ hrest) hloop.active ?_ ?_
        Or.inl
      · simp [hs, taken, (append_eq_nil_iff.mp hemp).1]
      · simp [hs, Responsible, hemp]
    | some found =>
      obtain ⟨signal, consumed⟩ := found
      have hperm := dequeueSignal_perm hdeq
      have hmem : signal ∈ t.enqueued := by
        refine hq.account.mem_iff.mp (mem_append_right _ ?_)
        have hin := hperm.mem_iff.mp mem_cons_self
        simp only [pending, hs, flatMap_cons, taken, mem_append] at hin ⊢
        tauto
      have hsigno := hq.signos signal hmem
      have hcheck : ¬ (signal.signo = 0 ∨ kGuestNsig < signal.signo) := by
        unfold ValidSigno at hsigno
        omega
      refine ⟨{ t with
        consumed := consumed
        dequeued := t.dequeued ++ [signal]
        stack := .code true [] :: .implRun signal :: rest },
        by simp [runFrame, hs, hdeq, hcheck], ?_, ?_, ?_, hq.ids, hq.nodup, hq.signos⟩
      · refine ⟨?_, trivial, fun hl => absurd (hbare hl) (by simp [bare]), fun hi => (hins hi).elim⟩
        rw [he]
        have hcode : Stack (.code true [] :: .implRun signal :: rest) (enabledIn true []) :=
          Stack.code (Stack.implRun hrest hloop) (Or.inr ⟨_, _, rfl⟩) trivial
        exact hcode
      · exact Or.inl (by simp [Responsible])
      · have hacc := hq.account
        simp only [pending, hs, flatMap_cons, taken] at hacc ⊢
        rw [perm_iff_count] at hacc hperm ⊢
        intro a
        have hcount := hacc a
        have hcount' := hperm a
        simp only [count_append, count_cons, count_nil] at hcount hcount' ⊢
        omega

theorem runFrame_inv (h : Inv t) (hcode : ∀ base scopes rest, t.stack ≠ .code base scopes :: rest) :
    ∃ t', t.runFrame = some t' ∧ Inv t' := by
  have hact := h.shape.active
  cases hs : t.stack with
  | nil =>
    rw [hs] at hact
    exact hact.elim
  | cons f rest =>
    rw [hs] at hact
    cases f with
    | code base scopes => exact absurd hs (hcode base scopes rest)
    | opening | closing | checking | implRun | disabling => exact hact.elim
    | processAndDisablePendingSignals => exact run_disable h hs
    | processPendingSignals => exact run_pending h hs
    | implStore => exact run_implStore h hs
    | implTake => exact run_implTake h hs
    | implSelect signals => exact run_implSelect h hs
    | attach signo => exact run_attach h hs
    | test signo attached => exact run_test h hs
    | enqueue signo attached prev => exact run_enqueue h hs
    | exchange attached prev => exact run_exchange h hs
    | finish attached prev => exact run_finish h hs
    | detach attached => exact run_detach h hs

end Processing

/-! ### Code -/

section Code

variable {t : SignalThread} {rest : List Frame} {base : Bool} {scopes : List Scope}

section

variable (h : Inv t) (hs : t.stack = .code base scopes :: rest)
include h hs

theorem code_step {t' : SignalThread} {base' : Bool} {scopes' : List Scope}
    (hs' : t'.stack = .code base' scopes' :: rest) (hstack : Stack t'.stack (enabled t'.status))
    (hlive' : t'.live = true)
    (hin : t'.insideGeneratedCode = true → enabledIn base' scopes' = true)
    (hqueue : t'.produced = t.produced ∧ t'.consumed = t.consumed ∧ t'.enqueued = t.enqueued ∧
      t'.dequeued = t.dequeued)
    (hst : t.status = kPendingSignalsPresent → t'.status = kPendingSignalsPresent) :
    Inv t' := by
  refine ⟨⟨hstack, by rw [hs']; trivial, fun hl => ?_, fun hi => ?_⟩, ?_⟩
  · rw [hlive'] at hl
    cases hl
  · rw [hs']
    exact hin hi
  · refine h.queue.of_same hqueue.1 hqueue.2.1 hqueue.2.2.1 hqueue.2.2.2 ?_ ?_
      (fun hp => Or.inl (hst hp))
    · simp [hs, hs', taken]
    · simp [hs, hs', Responsible]

theorem call_step {f g : Frame} (hlive : t.live = true) (hout : t.insideGeneratedCode = false)
    (hstack : Stack (f :: g :: rest) (enabled t.status)) (hact : Active (f :: g :: rest))
    (htak : taken f = [] ∧ taken g = []) : Inv { t with stack := f :: g :: rest } := by
  refine ⟨⟨hstack, hact, fun hl => ?_, fun hi => ?_⟩, ?_⟩
  · rw [show t.live = false from hl] at hlive
    cases hlive
  · rw [show t.insideGeneratedCode = true from hi] at hout
    cases hout
  · refine h.queue.of_same rfl rfl rfl rfl ?_ ?_ Or.inl
    · simp only [hs, flatMap_cons, htak.1, htak.2, nil_append]
      rfl
    · intro hl
      rw [hs, lookedAfter_cons] at hl
      have hrest : LookedAfter t.consumed rest := hl.resolve_left (by simp [Responsible])
      simp [hrest]

theorem code_attachThread (hall : t.Allowed .attachThread) :
    ∃ t', t.runCode base scopes rest .attachThread = some t' ∧ Inv t' := by
  have hlive : t.live = false := by
    simpa only [Allowed, hs] using hall
  obtain ⟨hst, hprod, hcons⟩ := h.of_not_live hlive
  refine ⟨_, rfl, ⟨?_, h.shape.active, fun hl => (by cases hl), fun hi => (by cases hi)⟩, ?_⟩
  · rw [← hst]
    exact h.shape.stack
  · exact h.queue.of_same hprod.symm hcons.symm rfl rfl rfl id
      (fun hp => by rw [hst] at hp; cases hp)

theorem code_close (hall : t.Allowed .close) :
    ∃ t', t.runCode base scopes rest .close = some t' ∧ Inv t' := by
  simp only [Allowed, hs] at hall
  obtain ⟨hlive, hout, hne⟩ := hall
  have hstack := h.shape.stack
  rw [hs] at hstack
  generalize he : enabled t.status = e at hstack
  cases hstack with
  | code hrest hcal hscop =>
    obtain ⟨htest, htest', htest''⟩ := enabled_testAndEnable t.status
    have hin : ∀ e', t.insideGeneratedCode = true → e' = true := by
      intro e' hi
      rw [hout] at hi
      cases hi
    cases scopes with
    | nil => exact absurd rfl hne
    | cons scope scopes =>
      cases scope with
      | enabler prev =>
        obtain ⟨hprev, hscop⟩ := hscop
        cases prev with
        | true =>
          refine ⟨{ t with stack := .code base scopes :: rest }, by simp [runCode], ?_⟩
          refine code_step h hs rfl ?_ hlive (hin _) ⟨rfl, rfl, rfl, rfl⟩ id
          rw [he]
          simp only [enabledIn]
          rw [hprev]
          exact Stack.code hrest hcal hscop
        | false =>
          refine ⟨{ t with
            stack := .processAndDisablePendingSignals :: .closing base scopes :: rest },
            by simp [runCode], ?_⟩
          refine call_step h hs hlive hout ?_ trivial ⟨rfl, rfl⟩
          rw [he]
          exact Stack.closing hrest hcal hscop hprev.symm
      | disabler prev =>
        obtain ⟨hprev, hscop⟩ := hscop
        have hcode := Stack.code hrest hcal hscop
        rw [← hprev] at hcode
        cases prev with
        | true =>
          rw [he] at htest
          refine ⟨{ t with
            status := (testAndEnable t.status).2, stack := .code base scopes :: rest },
            by simp [runCode, htest, enabledIn], ?_⟩
          refine code_step h hs rfl ?_ hlive (hin _) ⟨rfl, rfl, rfl, rfl⟩ htest''
          rw [htest']
          exact hcode
        | false =>
          refine ⟨{ t with stack := .code base scopes :: rest }, by simp [runCode], ?_⟩
          refine code_step h hs rfl ?_ hlive (hin _) ⟨rfl, rfl, rfl, rfl⟩ id
          rw [he]
          exact hcode

end

def Event.ofCode : Event → Bool
  | .interrupt _ => false
  | .run => false
  | .spurious => false
  | .flush => false
  | _ => true

theorem code_of_allowed {event : Event} (hevent : event.ofCode = true)
    (hall : t.Allowed event) : ∃ base scopes rest, t.stack = .code base scopes :: rest := by
  cases hs : t.stack with
  | nil => cases event <;> simp_all [Allowed, Event.ofCode]
  | cons f rest =>
    cases f with
    | code base scopes => exact ⟨base, scopes, rest, rfl⟩
    | _ => cases event <;> simp_all [Allowed, Event.ofCode]

theorem step_eq_runCode {event : Event} (hevent : event.ofCode = true)
    (hs : t.stack = .code base scopes :: rest) :
    t.step event = t.runCode base scopes rest event := by
  cases event with
  | interrupt | run | spurious | flush => cases hevent
  | _ => simp [step, hs]

theorem runCode_inv (h : Inv t) (hs : t.stack = .code base scopes :: rest) (event : Event)
    (hevent : event.ofCode = true) (hall : t.Allowed event) :
    ∃ t', t.runCode base scopes rest event = some t' ∧ Inv t' := by
  have hstack := h.shape.stack
  rw [hs] at hstack
  generalize he : enabled t.status = e at hstack
  cases hstack with
  | code hrest hcal hscop =>
    obtain ⟨htest, htest', htest''⟩ := enabled_testAndEnable t.status
    cases event with
    | interrupt | run | spurious | flush => cases hevent
    | attachThread => exact code_attachThread h hs hall
    | openEnabler =>
      simp only [Allowed, hs] at hall
      refine ⟨_, rfl, code_step h hs rfl ?_ hall.1 (fun _ => rfl) ⟨rfl, rfl, rfl, rfl⟩ htest''⟩
      rw [htest', htest, he]
      have hopen : Stack (.code base (.enabler (enabledIn base scopes) :: scopes) :: rest)
          (enabledIn base (.enabler (enabledIn base scopes) :: scopes)) :=
        Stack.code hrest hcal ⟨rfl, hscop⟩
      exact hopen
    | openDisabler =>
      simp only [Allowed, hs] at hall
      refine ⟨_, rfl, call_step h hs hall.1 hall.2 ?_ trivial ⟨rfl, rfl⟩⟩
      rw [he]
      exact Stack.opening hrest hcal hscop
    | close => exact code_close h hs hall
    | check =>
      simp only [Allowed, hs] at hall
      by_cases hp : t.status = kPendingSignalsPresent
      · refine ⟨{ t with stack := .processPendingSignals :: .checking base scopes :: rest },
          by simp [runCode, hp], ?_⟩
        refine call_step h hs hall.1 hall.2.1 ?_ trivial ⟨rfl, rfl⟩
        rw [he, hall.2.2]
        exact Stack.checking hrest hcal hscop hall.2.2
      · exact ⟨t, by simp [runCode, hp], h⟩
    | enterGeneratedCode =>
      simp only [Allowed, hs] at hall
      refine ⟨_, rfl, code_step h hs hs ?_ hall.1 (fun _ => hall.2) ⟨rfl, rfl, rfl, rfl⟩ id⟩
      exact h.shape.stack
    | leaveGeneratedCode =>
      refine ⟨_, rfl, ⟨h.shape.stack, h.shape.active, h.shape.bare, fun hi => (by cases hi)⟩,
        h.queue.of_same rfl rfl rfl rfl rfl id Or.inl⟩
    | return_ =>
      cases rest with
      | nil => simp [Allowed, hs] at hall
      | cons f rest =>
        cases f with
        | implRun signal =>
          simp only [Allowed, hs] at hall
          obtain ⟨hout, rfl⟩ := hall
          obtain ⟨rfl, hloop, hloop'⟩ : base = true ∧ Looping rest ∧ Stack rest true := by
            cases hrest with
            | implRun hrest hloop => exact ⟨rfl, hloop, hrest⟩
          refine ⟨{ t with stack := .implTake :: rest }, rfl, ⟨?_, trivial, fun hl => ?_,
            fun hi => ?_⟩, ?_⟩
          · exact he ▸ Stack.implTake hloop' hloop
          · have hb := h.shape.bare hl
            rw [hs] at hb
            simp [bare] at hb
          · rw [show t.insideGeneratedCode = true from hi] at hout
            cases hout
          · exact h.queue.of_same rfl rfl rfl rfl (by simp [hs, taken])
              (fun _ => by simp [Responsible]) Or.inl
        | _ => simp [Allowed, hs] at hall

end Code

/-! ### Runs -/

theorem step_inv (t : SignalThread) (event : Event) (hall : t.Allowed event) (h : Inv t) :
    ∃ t', t.step event = some t' ∧ Inv t' := by
  have hcode : event.ofCode = true → ∃ t', t.step event = some t' ∧ Inv t' := by
    intro hevent
    obtain ⟨base, scopes, rest, hs⟩ := code_of_allowed hevent hall
    obtain ⟨t', ht', hinv⟩ := runCode_inv h hs event hevent hall
    exact ⟨t', (step_eq_runCode hevent hs).trans ht', hinv⟩
  cases event with
  | interrupt signo =>
    refine ⟨{ t with stack := .attach signo :: t.stack }, rfl, ⟨?_, trivial, h.shape.bare,
      h.shape.inside⟩, ?_⟩
    · exact Stack.attach h.shape.stack h.shape.active hall
    · exact h.queue.of_same rfl rfl rfl rfl (by simp [taken])
        (fun hl => (lookedAfter_cons _ _ _).mpr (Or.inr hl)) Or.inl
  | run =>
    refine runFrame_inv h fun base scopes rest hs => ?_
    simp [Allowed, hs] at hall
  | spurious =>
    simp only [Allowed] at hall
    split at hall
    · rename_i hs
      refine ⟨{ t with stack := .implStore :: t.stack }, by simp [step, hs], ?_⟩
      exact push_impl h (Or.inl (by rw [hs]; rfl)) (by simp [hall])
    · exact hall.elim
  | flush =>
    have hst : enabled (if t.status = kPendingSignalsEnabled then kPendingSignalsPresent
        else t.status) = enabled t.status := by
      cases t.status <;> rfl
    refine ⟨_, rfl, ⟨?_, h.shape.active, h.shape.bare, h.shape.inside⟩, ?_⟩
    · rw [hst]
      exact h.shape.stack
    · exact h.queue.of_same rfl rfl rfl rfl rfl id (fun hp => Or.inl (by simp [hp]))
  | _ => exact hcode rfl

theorem start_inv (live base : Bool) : Inv (start live base) := by
  have hstack : ∀ b, Stack [.code b []] (enabledIn b []) := fun b =>
    Stack.code (Stack.nil b) (Or.inl rfl) trivial
  refine ⟨⟨?_, trivial, fun hl => ?_, fun hi => (by cases hi)⟩, Or.inr (Or.inr ⟨rfl, rfl⟩), ?_, ?_,
    nodup_nil, ?_⟩
  · cases live <;> cases base <;> exact hstack _
  · rw [show live = false from hl]
    rfl
  · simp [start, pending, taken]
  · simp [start]
  · simp [start]

def Frame.processes : Frame → Bool
  | .processAndDisablePendingSignals => true
  | .processPendingSignals => true
  | .implStore => true
  | .implTake => true
  | .implSelect _ => true
  | .implRun _ => true
  | _ => false

def Processing (stack : List Frame) : Prop := ∃ f ∈ stack, Frame.processes f = true

/-- A host signal has been enqueued, and the status is about to say so. -/
def Signalling (stack : List Frame) : Prop := ∃ attached prev, .exchange attached prev ∈ stack

@[simp]
theorem processing_cons (f : Frame) (stack : List Frame) :
    Processing (f :: stack) ↔ Frame.processes f = true ∨ Processing stack := by
  simp [Processing]

theorem responsible_cases {consumed : List Signal} (h : LookedAfter consumed stack) :
    Processing stack ∨ Signalling stack := by
  obtain ⟨f, hf, hr⟩ := h
  cases f with
  | implStore | implTake | implSelect | implRun => exact Or.inl ⟨_, hf, rfl⟩
  | exchange attached prev => exact Or.inr ⟨attached, prev, hf⟩
  | _ => exact hr.elim

theorem taken_of_not_processing (h : ¬ Processing stack) : stack.flatMap taken = [] := by
  rw [flatMap_eq_nil_iff]
  intro f hf
  cases f with
  | implSelect signals => exact absurd ⟨_, hf, rfl⟩ h
  | _ => rfl

theorem Inv.pending_eq_nil (h : Inv t) (hp : ¬ Processing t.stack) (hs : ¬ Signalling t.stack)
    (hst : t.status ≠ kPendingSignalsPresent) : t.pending = [] := by
  rcases h.queue.looked with hl | hpres | ⟨hprod, hcons⟩
  · exact absurd (responsible_cases hl) (not_or.mpr ⟨hp, hs⟩)
  · exact absurd hpres hst
  · unfold pending
    rw [hprod, hcons, taken_of_not_processing hp]
    rfl

def HostSignalOnTop : List Frame → Prop
  | .attach _ :: _ => True
  | .test _ _ :: _ => True
  | .enqueue _ _ _ :: _ => True
  | .exchange _ _ :: _ => True
  | .finish _ _ :: _ => True
  | _ => False

theorem Caller.not_hostSignalOnTop (h : Caller rest) : ¬ HostSignalOnTop rest := by
  rcases h with rfl | ⟨signal, rest', rfl⟩
  · exact id
  · exact id

theorem Looping.not_hostSignalOnTop (h : Looping rest) : ¬ HostSignalOnTop rest := by
  obtain ⟨rest', rfl | rfl⟩ := h.eq_cons
  · exact id
  · exact id

/-- Above a host signal that is being signalled there are only host signals, with
    pending signals enabled. -/
theorem Stack.of_signalling (h : Stack stack e) (hs : Signalling stack) :
    e = true ∧ HostSignalOnTop stack := by
  obtain ⟨attached, prev, hmem⟩ := hs
  induction h with
  | nil => exact absurd hmem not_mem_nil
  | attach _ _ _ ih | test _ _ _ _ ih => exact ⟨(ih (by simpa using hmem)).1, trivial⟩
  | enqueue | exchange | finish => exact ⟨rfl, trivial⟩
  | code _ hcal _ ih | opening _ hcal _ ih | closing _ hcal _ _ ih
  | checking _ hcal _ _ ih =>
    exact absurd (ih (by simpa using hmem)).2 hcal.not_hostSignalOnTop
  | disabling _ _ _ ih | detach _ _ _ ih => exact absurd (ih (by simpa using hmem)).1 (by simp)
  | implStore _ hloop ih | implTake _ hloop ih | implSelect _ hloop ih | implRun _ hloop ih =>
    exact absurd (ih (by simpa using hmem)).2 hloop.not_hostSignalOnTop

theorem processing_runCode {base : Bool} {scopes : List Scope} {event : Event}
    (hs : t.stack = .code base scopes :: rest)
    (hstep : t.runCode base scopes rest event = some t') (hp : Processing rest) :
    Processing t'.stack := by
  cases event with
  | attachThread | enterGeneratedCode | leaveGeneratedCode =>
    cases hstep
    simp [hs, hp]
  | openEnabler | openDisabler =>
    cases hstep
    simp [hp]
  | close =>
    simp only [runCode] at hstep
    split at hstep
    · cases hstep
    · split_ifs at hstep <;> cases hstep <;> simp [hp]
    · split_ifs at hstep <;> cases hstep <;> simp [hp]
  | check =>
    simp only [runCode] at hstep
    split_ifs at hstep <;> cases hstep <;> simp [hs, hp]
  | return_ =>
    simp only [runCode] at hstep
    split at hstep
    · cases hstep
      simp [Frame.processes]
    · cases hstep
  | _ => cases hstep

theorem Looping.processing (h : Looping rest) : Processing rest := by
  obtain ⟨rest', rfl | rfl⟩ := h.eq_cons
  · simp [Frame.processes]
  · simp [Frame.processes]

theorem processing_runFrame (h : Inv t) (hstep : t.runFrame = some t') (hloop : ¬ Looping t.stack)
    (hp : Processing t.stack) : Processing t'.stack := by
  have hstack := h.shape.stack
  cases hs : t.stack with
  | nil =>
    rw [hs] at hp
    simp [Processing] at hp
  | cons f rest =>
    rw [hs] at hp hstack hloop
    rw [processing_cons] at hp
    cases f with
    | processAndDisablePendingSignals => exact absurd (Or.inl rfl) hloop
    | processPendingSignals => exact absurd (Or.inr rfl) hloop
    | implStore | implTake =>
      simp only [runFrame, hs, Option.some.injEq] at hstep
      rw [← hstep]
      simp [Frame.processes]
    | implSelect signals =>
      generalize enabled t.status = e at hstack
      cases hstack with
      | implSelect hrest hloop' =>
        simp only [runFrame, hs] at hstep
        split at hstep
        · cases hstep
          exact hloop'.processing
        · split_ifs at hstep
          cases hstep
          simp [Frame.processes]
    | attach | exchange | finish =>
      simp only [runFrame, hs] at hstep
      split_ifs at hstep <;> cases hstep <;> simp [hp.resolve_left (by simp [Frame.processes])]
    | test | enqueue | detach =>
      simp only [runFrame, hs, Option.some.injEq] at hstep
      rw [← hstep]
      simp [hp.resolve_left (by simp [Frame.processes])]
    | _ => simp [runFrame, hs] at hstep

theorem signalling_cons_of {f : Frame} (h : Signalling stack) : Signalling (f :: stack) := by
  obtain ⟨attached, prev, hmem⟩ := h
  exact ⟨attached, prev, mem_cons_of_mem f hmem⟩

theorem loop_ends (h : Inv t) (hstep : t.runFrame = some t') (hloop : Looping t.stack)
    (hp' : ¬ Processing t'.stack) : t'.status ≠ kPendingSignalsPresent ∧ ¬ Signalling t'.stack := by
  have hnot : ¬ Signalling t.stack := fun hs =>
    hloop.not_hostSignalOnTop (h.shape.stack.of_signalling hs).2
  -- What is below the loop and the frame that waits for it stays.
  have hrest : ∀ {f g f' : Frame} {rest : List Frame}, t.stack = f :: g :: rest →
      (∀ attached prev, f' ≠ .exchange attached prev) → ¬ Signalling (f' :: rest) := by
    intro f g f' rest hs hf' hsig
    obtain ⟨attached, prev, hmem⟩ := hsig
    rcases mem_cons.mp hmem with heq | hmem
    · exact hf' attached prev heq.symm
    · exact hnot (by rw [hs]; exact signalling_cons_of (signalling_cons_of ⟨attached, prev, hmem⟩))
  cases hs : t.stack with
  | nil =>
    rw [hs] at hloop
    rcases hloop with hl | hl <;> cases hl
  | cons f rest =>
    have hstack := h.shape.stack
    rw [hs] at hloop hstack
    generalize enabled t.status = e at hstack
    rcases hloop with hl | hl
    · cases hl
      cases hst : t.status with
      | kPendingSignalsPresent =>
        simp only [runFrame, hs, hst, Option.some.injEq] at hstep
        rw [← hstep] at hp'
        simp [Frame.processes] at hp'
      | kPendingSignalsEnabled =>
        simp only [runFrame, hs, hst] at hstep
        cases hstack with
        | opening | closing | disabling =>
          cases hstep
          exact ⟨by simp, hrest hs (by simp)⟩
      | kPendingSignalsDisabled =>
        simp only [runFrame, hs, hst] at hstep
        cases hstack with
        | closing => cases hstep
        | opening | disabling =>
          cases hstep
          exact ⟨by simp [hst], hrest hs (by simp)⟩
    · cases hl
      cases hstack with
      | checking =>
        cases hst : t.status with
        | kPendingSignalsPresent =>
          simp only [runFrame, hs, hst, Option.some.injEq] at hstep
          rw [← hstep] at hp'
          simp [Frame.processes] at hp'
        | kPendingSignalsEnabled =>
          simp only [runFrame, hs, hst, Option.some.injEq] at hstep
          rw [← hstep]
          exact ⟨by simp, hrest hs (by simp)⟩
        | kPendingSignalsDisabled => simp [runFrame, hs, hst] at hstep

/-- Processing comes to its end when one of the two loops finds no signals, and
    nothing is being signalled then. -/
theorem processing_ends {event : Event} (h : Inv t) (hall : t.Allowed event)
    (hstep : t.step event = some t') (hp : Processing t.stack) (hp' : ¬ Processing t'.stack) :
    t'.status ≠ kPendingSignalsPresent ∧ ¬ Signalling t'.stack := by
  cases event with
  | interrupt signo =>
    cases hstep
    simp [hp] at hp'
  | flush =>
    cases hstep
    exact absurd hp hp'
  | spurious =>
    simp only [step] at hstep
    split at hstep
    · cases hstep
      simp [Frame.processes] at hp'
    · cases hstep
  | run =>
    by_cases hloop : Looping t.stack
    · exact loop_ends h hstep hloop hp'
    · exact absurd (processing_runFrame h hstep hloop hp) hp'
  | _ =>
    obtain ⟨base, scopes, rest, hs⟩ := code_of_allowed rfl hall
    rw [step_eq_runCode rfl hs] at hstep
    rw [hs, processing_cons] at hp
    exact absurd (processing_runCode hs hstep (hp.resolve_left (by simp [Frame.processes]))) hp'

/-- Whatever host signals interrupt a thread, and wherever they do: no check fails, a signal is
    dequeued at most once and only while pending signals are enabled, and none is lost. When nothing
    is being processed and no host signal is between enqueueing and setting the status, the status
    says that signals are present or there are none, and when processing comes to its end every
    signal has been dequeued. -/
theorem pendingSignals_kept (live base : Bool) (events : List Event)
    (h : Lib.MeetsAlong step Allowed (start live base) events) :
    ∃ t, Lib.run step (start live base) events = some t ∧ t.dequeued.Nodup ∧
      (∀ s, s ∈ t.enqueued ↔ s ∈ t.dequeued ∨ s ∈ t.pending) ∧ (∀ s ∈ t.dequeued, s ∉ t.pending) ∧
      (∀ signals rest, t.stack = .implSelect signals :: rest → t.status ≠ kPendingSignalsDisabled) ∧
      (¬ Processing t.stack → ¬ Signalling t.stack → t.status ≠ kPendingSignalsPresent →
        t.pending = []) ∧
      ∀ event t', t.Allowed event → t.step event = some t' → Processing t.stack →
        ¬ Processing t'.stack → t'.pending = [] := by
  obtain ⟨t, ht, hinv⟩ := Lib.run_total_of step Allowed Inv step_inv events _ h
    (start_inv live base)
  have hnodup : (t.dequeued ++ t.pending).Nodup :=
    hinv.queue.account.nodup_iff.mpr hinv.queue.nodup
  obtain ⟨hdequeued, -, hdisjoint⟩ := nodup_append.mp hnodup
  refine ⟨t, ht, hdequeued, fun s => ?_, fun s hs hs' => hdisjoint s hs s hs' rfl,
    fun signals rest hs => ?_, hinv.pending_eq_nil, fun event t' hallowed hstep hp hp' => ?_⟩
  · rw [← hinv.queue.account.mem_iff, mem_append]
  · have hstack := hinv.shape.stack
    rw [hs] at hstack
    generalize he : enabled t.status = e at hstack
    cases hstack with
    | implSelect _ _ =>
      intro hd
      rw [hd] at he
      cases he
  · obtain ⟨u, hu, hinv'⟩ := step_inv t event hallowed hinv
    rw [hstep, Option.some.injEq] at hu
    subst hu
    obtain ⟨hstatus, hsig⟩ := processing_ends hinv hallowed hstep hp hp'
    exact hinv'.pending_eq_nil hp' hsig hstatus

/-- A signal arrives in generated code, and is processed at the next check. -/
def checkEvents : List Event :=
  [.openEnabler, .enterGeneratedCode, .interrupt 11, .run, .run, .run, .run, .run,
    .leaveGeneratedCode, .check, .run, .run, .run, .run, .return_, .run, .run, .run]

theorem allowed_checkEvents : Lib.MeetsAlong step Allowed (start true false) checkEvents :=
  meetsAlong_cons ⟨rfl, rfl⟩ rfl <|
  meetsAlong_cons ⟨rfl, rfl⟩ rfl <|
  meetsAlong_cons (by simp [Allowed, kGuestNsig]) rfl <|
  meetsAlong_cons trivial rfl <|
  meetsAlong_cons trivial rfl <|
  meetsAlong_cons trivial rfl <|
  meetsAlong_cons trivial rfl <|
  meetsAlong_cons trivial rfl <|
  meetsAlong_cons trivial rfl <|
  meetsAlong_cons ⟨rfl, rfl, rfl⟩ rfl <|
  meetsAlong_cons trivial rfl <|
  meetsAlong_cons trivial rfl <|
  meetsAlong_cons trivial rfl <|
  meetsAlong_cons trivial rfl <|
  meetsAlong_cons ⟨rfl, rfl⟩ rfl <|
  meetsAlong_cons trivial rfl <|
  meetsAlong_cons trivial rfl <|
  meetsAlong_cons trivial rfl trivial

theorem pendingSignals_checked : Lib.MeetsAlong step Allowed (start true false) checkEvents ∧
      ∃ t, Lib.run step (start true false) checkEvents = some t ∧ t.dequeued = [⟨0, 11⟩] ∧
        t.dequeued.Nodup ∧ t.pending = [] := by
  obtain ⟨t, ht, hnodup, -, -, -, -, -⟩ :=
    pendingSignals_kept true false checkEvents allowed_checkEvents
  have hrun : Lib.run step (start true false) checkEvents = some
      ⟨true, kPendingSignalsEnabled, false, [], [], [.code false [.enabler false]], [⟨0, 11⟩],
        [⟨0, 11⟩]⟩ := rfl
  rw [hrun, Option.some.injEq] at ht
  subst ht
  exact ⟨allowed_checkEvents, _, hrun, rfl, hnodup, rfl⟩

/-- A host signal has been enqueued and the status does not say so yet, with
    pending signals enabled and nothing being processed. -/
theorem pendingSignals_signalling : Lib.MeetsAlong step Allowed (start true false)
        [.openEnabler, .interrupt 11, .run, .run, .run] ∧
      ∃ t, Lib.run step (start true false) [.openEnabler, .interrupt 11, .run, .run, .run] =
          some t ∧
        ¬ Processing t.stack ∧ t.status = kPendingSignalsEnabled ∧ t.pending = [⟨0, 11⟩] := by
  refine ⟨?_, _, rfl, ?_, rfl, rfl⟩
  · exact meetsAlong_cons ⟨rfl, rfl⟩ rfl <| meetsAlong_cons (by simp [Allowed, kGuestNsig]) rfl <|
      meetsAlong_cons trivial rfl <|
      meetsAlong_cons trivial rfl <|
      meetsAlong_cons trivial rfl trivial
  · simp [Processing, Frame.processes]

end SignalThread

end Berberis
