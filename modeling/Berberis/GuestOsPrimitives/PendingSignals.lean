import Berberis.Lib.Run

/-!
# Pending Guest Signals

A host signal for the guest may arrive at any time. When pending signals are
enabled the host's handler only queues it, and the thread runs the guest's
handler at its next check; when they are disabled the handler enables them, runs
guest handlers itself, and disables them again.
-/

namespace Berberis

inductive PendingSignalsStatus where
  | kPendingSignalsDisabled
  | kPendingSignalsEnabled
  | kPendingSignalsPresent
  deriving DecidableEq

open PendingSignalsStatus

structure Signal where
  id : Nat
  signo : Nat
  deriving DecidableEq

def kGuestNsig : Nat := 64

/-- The search for the last signal with the smallest number: `pre` and `mid` are
    the signals before and after the best one so far. -/
def bestSignal (pre : List Signal) (best : Signal) (mid : List Signal) :
    List Signal → Signal × List Signal
  | [] => (best, pre ++ mid)
  | curr :: rest =>
    if curr.signo ≤ best.signo then bestSignal (pre ++ best :: mid) curr [] rest
    else bestSignal pre best (mid ++ [curr]) rest

/-- The end of `DequeueSignalUnsafe`, with what was taken from the produced
    signals in front of the consumed ones. -/
def dequeueSignal : List Signal → Option (Signal × List Signal)
  | [] => none
  | first :: rest => some (bestSignal [] first [] rest)

theorem bestSignal_split (pre mid rest : List Signal) (best : Signal)
    (hpre : ∀ s ∈ pre, best.signo ≤ s.signo) (hmid : ∀ s ∈ mid, best.signo < s.signo) :
    ∃ before after, (bestSignal pre best mid rest).2 = before ++ after ∧
      pre ++ best :: mid ++ rest = before ++ (bestSignal pre best mid rest).1 :: after ∧
      (∀ s ∈ before, (bestSignal pre best mid rest).1.signo ≤ s.signo) ∧
      ∀ s ∈ after, (bestSignal pre best mid rest).1.signo < s.signo := by
  induction rest generalizing pre best mid with
  | nil => exact ⟨pre, mid, rfl, by simp [bestSignal], hpre, hmid⟩
  | cons curr rest ih =>
    rw [bestSignal]
    split_ifs with hle
    · have hbef : ∀ s ∈ pre ++ best :: mid, curr.signo ≤ s.signo := by
        intro s hs
        rcases List.mem_append.mp hs with hs | hs
        · exact Nat.le_trans hle (hpre s hs)
        rcases List.mem_cons.mp hs with rfl | hs
        · exact hle
        · exact Nat.le_trans hle (Nat.le_of_lt (hmid s hs))
      simpa using ih (pre ++ best :: mid) [] curr hbef (by simp)
    · have haft : ∀ s ∈ mid ++ [curr], best.signo < s.signo := by
        simpa [or_imp, forall_and] using ⟨hmid, Nat.lt_of_not_le hle⟩
      simpa using ih pre (mid ++ [curr]) best hpre haft

theorem dequeueSignal_split {signals rest : List Signal} {signal : Signal}
    (h : dequeueSignal signals = some (signal, rest)) :
    ∃ before after, rest = before ++ after ∧ signals = before ++ signal :: after ∧
      (∀ s ∈ before, signal.signo ≤ s.signo) ∧ ∀ s ∈ after, signal.signo < s.signo := by
  cases signals with
  | nil => cases h
  | cons first signals =>
    rw [dequeueSignal, Option.some.injEq] at h
    have hspl := bestSignal_split [] [] signals first (by simp) (by simp)
    rw [h] at hspl
    exact hspl

/-- An open scope, with `prev_pending_signals_enabled_`. -/
inductive Scope where
  | enabler (prev : Bool)
  | disabler (prev : Bool)
  deriving DecidableEq

/-- Pending signals are enabled in code with these scopes, when they were or
    were not where the code began. -/
def enabledIn (base : Bool) : List Scope → Bool
  | [] => base
  | .enabler _ :: _ => true
  | .disabler _ :: _ => false

inductive Frame where
  /-- Code, with its open scopes. -/
  | code (base : Bool) (scopes : List Scope)
  /-- Code that opens a disabler, in `ProcessAndDisablePendingSignals`. -/
  | opening (base : Bool) (scopes : List Scope)
  /-- Code that closes an enabler, in `ProcessAndDisablePendingSignals`. -/
  | closing (base : Bool) (scopes : List Scope)
  /-- Code that has found pending signals, in `ProcessPendingSignals`. -/
  | checking (base : Bool) (scopes : List Scope)
  | processAndDisablePendingSignals
  | processPendingSignals
  /-- `ProcessPendingSignalsImpl` before it stores the status. -/
  | implStore
  /-- Before it takes the produced signals. -/
  | implTake
  /-- With the produced signals taken. -/
  | implSelect (taken : List Signal)
  /-- In the guest's handler. -/
  | implRun (signal : Signal)
  /-- `HandleHostSignal` before it attaches the thread. -/
  | attach (signo : Nat)
  /-- Before `TestAndEnablePendingSignals`. -/
  | test (signo : Nat) (attached : Bool)
  /-- Before the signal is enqueued. -/
  | enqueue (signo : Nat) (attached prev : Bool)
  /-- Before the status is set to present. -/
  | exchange (attached prev : Bool)
  /-- After `SetSignalFromHost`. -/
  | finish (attached prev : Bool)
  /-- In `ProcessAndDisablePendingSignals`. -/
  | disabling (attached : Bool)
  /-- Before the thread is detached. -/
  | detach (attached : Bool)
  deriving DecidableEq

structure SignalThread where
  /-- There is a guest thread. -/
  live : Bool
  status : PendingSignalsStatus
  insideGeneratedCode : Bool
  produced : List Signal
  consumed : List Signal
  stack : List Frame
  enqueued : List Signal
  dequeued : List Signal
  deriving DecidableEq

namespace SignalThread

inductive Event where
  /-- A host signal arrives. -/
  | interrupt (signo : Nat)
  /-- The function on top takes its next step. -/
  | run
  /-- A weak compare and exchange fails for no reason. -/
  | spurious
  /-- Another thread flushes the code cache. -/
  | flush
  /-- Steps of code. -/
  | attachThread
  | openEnabler
  | openDisabler
  | close
  | check
  | enterGeneratedCode
  | leaveGeneratedCode
  | return_
  deriving DecidableEq

def testAndEnable (status : PendingSignalsStatus) : Bool × PendingSignalsStatus :=
  if status = kPendingSignalsDisabled then (false, kPendingSignalsEnabled) else (true, status)

def returnFromDisable (t : SignalThread) (result : Bool) : List Frame → Option SignalThread
  | .opening base scopes :: rest =>
    some { t with stack := .code base (.disabler result :: scopes) :: rest }
  | .closing base scopes :: rest =>
    if result then some { t with stack := .code base scopes :: rest } else none
  | .disabling attached :: rest => some { t with stack := .detach attached :: rest }
  | _ => none

def runFrame (t : SignalThread) : Option SignalThread :=
  match t.stack with
  | .processAndDisablePendingSignals :: rest =>
    match t.status with
    | kPendingSignalsEnabled =>
      returnFromDisable { t with status := kPendingSignalsDisabled } true rest
    | kPendingSignalsDisabled => returnFromDisable t false rest
    | kPendingSignalsPresent => some { t with stack := .implStore :: t.stack }
  | .processPendingSignals :: .checking base scopes :: rest =>
    match t.status with
    | kPendingSignalsDisabled => none
    | kPendingSignalsEnabled => some { t with stack := .code base scopes :: rest }
    | kPendingSignalsPresent => some { t with stack := .implStore :: t.stack }
  | .implStore :: rest =>
    some { t with status := kPendingSignalsEnabled, stack := .implTake :: rest }
  | .implTake :: rest =>
    some { t with produced := [], stack := .implSelect t.produced :: rest }
  | .implSelect taken :: rest =>
    match dequeueSignal (taken ++ t.consumed) with
    | none => some { t with stack := rest }
    | some (signal, consumed) =>
      if signal.signo = 0 ∨ kGuestNsig < signal.signo then none
      else
        some
          { t with
            consumed := consumed
            dequeued := t.dequeued ++ [signal]
            stack := .code true [] :: .implRun signal :: rest }
  | .attach signo :: rest =>
    if t.live then some { t with stack := .test signo false :: rest }
    else
      some
        { t with
          live := true
          status := kPendingSignalsDisabled
          insideGeneratedCode := false
          produced := []
          consumed := []
          stack := .test signo true :: rest }
  | .test signo attached :: rest =>
    some
      { t with
        status := (testAndEnable t.status).2
        stack := .enqueue signo attached (testAndEnable t.status).1 :: rest }
  | .enqueue signo attached prev :: rest =>
    some
      { t with
        produced := ⟨t.enqueued.length, signo⟩ :: t.produced
        enqueued := t.enqueued ++ [⟨t.enqueued.length, signo⟩]
        stack := .exchange attached prev :: rest }
  | .exchange attached prev :: rest =>
    if t.status = kPendingSignalsDisabled then none
    else some { t with status := kPendingSignalsPresent, stack := .finish attached prev :: rest }
  | .finish attached prev :: rest =>
    if prev then if attached then none else some { t with stack := rest }
    else if t.insideGeneratedCode then none
    else some { t with stack := .processAndDisablePendingSignals :: .disabling attached :: rest }
  | .detach attached :: rest =>
    some { t with live := t.live && !attached, stack := rest }
  | _ => none

def runCode (t : SignalThread) (base : Bool) (scopes : List Scope) (rest : List Frame) :
    Event → Option SignalThread
  | .attachThread =>
    some
      { t with
        live := true
        status := kPendingSignalsDisabled
        insideGeneratedCode := false
        produced := []
        consumed := [] }
  | .openEnabler =>
    some
      { t with
        status := (testAndEnable t.status).2
        stack := .code base (.enabler (testAndEnable t.status).1 :: scopes) :: rest }
  | .openDisabler =>
    some { t with stack := .processAndDisablePendingSignals :: .opening base scopes :: rest }
  | .close =>
    match scopes with
    | [] => none
    | .enabler prev :: scopes =>
      if prev then some { t with stack := .code base scopes :: rest }
      else some { t with stack := .processAndDisablePendingSignals :: .closing base scopes :: rest }
    | .disabler prev :: scopes =>
      if prev then
        if (testAndEnable t.status).1 then none
        else
          some
            { t with status := (testAndEnable t.status).2, stack := .code base scopes :: rest }
      else some { t with stack := .code base scopes :: rest }
  | .check =>
    if t.status = kPendingSignalsPresent then
      some { t with stack := .processPendingSignals :: .checking base scopes :: rest }
    else some t
  | .enterGeneratedCode => some { t with insideGeneratedCode := true }
  | .leaveGeneratedCode => some { t with insideGeneratedCode := false }
  | .return_ =>
    match rest with
    | .implRun _ :: rest => some { t with stack := .implTake :: rest }
    | _ => none
  | _ => none

def step (t : SignalThread) : Event → Option SignalThread
  | .interrupt signo => some { t with stack := .attach signo :: t.stack }
  | .run => t.runFrame
  | .spurious =>
    match t.stack with
    | .processAndDisablePendingSignals :: _ => some { t with stack := .implStore :: t.stack }
    | _ => none
  | .flush =>
    some
      { t with
        status := if t.status = kPendingSignalsEnabled then kPendingSignalsPresent else t.status }
  | event =>
    match t.stack with
    | .code base scopes :: rest => t.runCode base scopes rest event
    | _ => none

/-- What may happen in a state. Host signals have valid numbers. Code opens and closes scopes
    outside generated code, looks for pending signals and enters generated code only where they are
    enabled, and returns with its scopes closed. -/
def Allowed (t : SignalThread) : Event → Prop
  | .interrupt signo => 0 < signo ∧ signo ≤ kGuestNsig
  | .run =>
    match t.stack with
    | .code _ _ :: _ => False
    | _ => True
  | .spurious =>
    match t.stack with
    | .processAndDisablePendingSignals :: _ => t.status = kPendingSignalsEnabled
    | _ => False
  | .flush => True
  | .attachThread =>
    match t.stack with
    | .code _ _ :: _ => t.live = false
    | _ => False
  | .openEnabler =>
    match t.stack with
    | .code _ _ :: _ => t.live = true ∧ t.insideGeneratedCode = false
    | _ => False
  | .openDisabler =>
    match t.stack with
    | .code _ _ :: _ => t.live = true ∧ t.insideGeneratedCode = false
    | _ => False
  | .close =>
    match t.stack with
    | .code _ scopes :: _ => t.live = true ∧ t.insideGeneratedCode = false ∧ scopes ≠ []
    | _ => False
  | .check =>
    match t.stack with
    | .code base scopes :: _ =>
      t.live = true ∧ t.insideGeneratedCode = false ∧ enabledIn base scopes = true
    | _ => False
  | .enterGeneratedCode =>
    match t.stack with
    | .code base scopes :: _ => t.live = true ∧ enabledIn base scopes = true
    | _ => False
  | .leaveGeneratedCode =>
    match t.stack with
    | .code _ _ :: _ => True
    | _ => False
  | .return_ =>
    match t.stack with
    | .code _ scopes :: .implRun _ :: _ => t.insideGeneratedCode = false ∧ scopes = []
    | _ => False

/-- A thread before its first step: code without a guest thread, code of a guest
    thread, or, for a cloned thread, with pending signals enabled. -/
def start (live base : Bool) : SignalThread where
  live := live
  status := if live && base then kPendingSignalsEnabled else kPendingSignalsDisabled
  insideGeneratedCode := false
  produced := []
  consumed := []
  stack := [.code (live && base) []]
  enqueued := []
  dequeued := []

end SignalThread

end Berberis
