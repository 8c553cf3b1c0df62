import Mathlib.Logic.Relation

/-!
# Labelled transition systems

A system is a set of initial states and a labelled step relation.  Labels say who moved or what
was observed, so that the history of a run can be read off its labels.

`System.Hist h s` says that `s` is reached from an initial state by the labels `h`, newest first.
`System.Reachable` forgets the labels.  `Hist.invariant` and `Reachable.invariant` are the two
induction rules: what holds initially and survives a step holds in every state of every run.
`Hist.invariant_shown` is for statements about what the labels show, and `Hist.conserve` for a
queue: what has come in has gone out, or is still there.

`Reachable.map` is the rule for two levels of one design: an abstraction of the states under which
every step is a step of the other system, or nothing, takes runs to runs.  `Hist.simulate` is the
same for histories and a relation between the states, which may read the history: a forward
simulation.

`System.guard` keeps the steps that meet a condition.  Its runs are the runs of the system all of
whose steps meet the condition, so a statement about them is a statement about well-behaved
runs of the unrestricted system (`Reachable.of_guard`).
-/

namespace Transition

/-- Initial states and labelled steps. -/
structure System (σ α : Type*) where
  /-- The states a run may start in. -/
  init : σ → Prop
  /-- `step s a t`: from `s` the system may move to `t`, and the move is labelled `a`. -/
  step : σ → α → σ → Prop

variable {σ α : Type*}

/-- `M.Hist h s`: the labels `h`, newest first, lead from an initial state to `s`. -/
inductive System.Hist (M : System σ α) : List α → σ → Prop where
  | init : M.init s → M.Hist [] s
  | step : M.Hist h s → M.step s a t → M.Hist (a :: h) t

/-- The states a run can be in. -/
inductive System.Reachable (M : System σ α) : σ → Prop where
  | init : M.init s → M.Reachable s
  | step : M.Reachable s → M.step s a t → M.Reachable t

/-- The system with only those steps whose source state and label meet `C`. -/
def System.guard (M : System σ α) (C : σ → α → Prop) : System σ α where
  init := M.init
  step s a t := C s a ∧ M.step s a t

/-- Any number of steps, each with a label in `P`. -/
def System.Moves (M : System σ α) (P : α → Prop) : σ → σ → Prop :=
  Relation.ReflTransGen fun s t => ∃ a, P a ∧ M.step s a t

/-- The step with a label, or no step. -/
def System.stepOption (M : System σ α) (s : σ) : Option α → σ → Prop
  | none, t => t = s
  | some a, t => M.step s a t

variable {M : System σ α}

namespace System

/-- The invariant rule for statements that read the history of the run. -/
theorem Hist.invariant {P : List α → σ → Prop} (hinit : ∀ s, M.init s → P [] s)
    (hstep : ∀ h s a t, M.Hist h s → P h s → M.step s a t → P (a :: h) t) {h : List α} {s : σ}
    (hs : M.Hist h s) : P h s := by
  induction hs with
  | init hi => exact hinit _ hi
  | step hs hst ih => exact hstep _ _ _ _ hs ih hst

/-- What a label shows is in front of what the labels before it show. -/
theorem filterMap_cons_toList {β : Type*} (f : α → Option β) (a : α) (h : List α) :
    (a :: h).filterMap f = (f a).toList ++ h.filterMap f := by
  cases hf : f a <;> simp [hf]

/-- Each label of a run is that of a step, and the labels before it are a run. -/
theorem Hist.step_of_append {h₁ h₂ : List α} {a : α} {s : σ} (hs : M.Hist (h₁ ++ a :: h₂) s) :
    ∃ t u, M.Hist h₂ t ∧ M.step t a u := by
  induction h₁ generalizing s with
  | nil =>
      cases hs with
      | step hs hst => exact ⟨_, _, hs, hst⟩
  | cons b h₁ ih =>
      cases hs with
      | step hs hst => exact ih hs

/-- The invariant rule for statements that read only what the labels show by `f`. -/
theorem Hist.invariant_shown {β : Type*} {f : α → Option β} {P : List β → σ → Prop}
    (hinit : ∀ s, M.init s → P [] s)
    (hstep : ∀ s a t bs, P bs s → M.step s a t → P ((f a).toList ++ bs) t) {h : List α} {s : σ}
    (hs : M.Hist h s) : P (h.filterMap f) s := by
  induction hs with
  | init hi => exact hinit _ hi
  | step _ hst ih =>
      rw [filterMap_cons_toList]
      exact hstep _ _ _ _ ih hst

/-- The conservation rule: what has come in has gone out or is still `pending`, in its order. -/
theorem Hist.conserve {β : Type*} (pending : σ → List β) {incoming outgoing : α → Option β}
    {bs : List β} (hinit : ∀ s, M.init s → pending s = bs)
    (hstep : ∀ s a t, M.step s a t →
      pending t ++ (outgoing a).toList = (incoming a).toList ++ pending s) {h : List α} {s : σ}
    (hs : M.Hist h s) : pending s ++ h.filterMap outgoing = h.filterMap incoming ++ bs := by
  induction hs with
  | init hi =>
      rw [hinit _ hi]
      exact List.append_nil bs
  | step _ hst ih =>
      rw [filterMap_cons_toList, filterMap_cons_toList, ← List.append_assoc, hstep _ _ _ hst,
        List.append_assoc, ih, List.append_assoc]

/-- The invariant rule. -/
theorem Reachable.invariant {P : σ → Prop} (hinit : ∀ s, M.init s → P s)
    (hstep : ∀ s a t, P s → M.step s a t → P t) {s : σ} (hs : M.Reachable s) : P s := by
  induction hs with
  | init hi => exact hinit _ hi
  | step _ hst ih => exact hstep _ _ _ ih hst

/-- The abstraction rule, for a system `N`. -/
theorem Reachable.map {τ β : Type*} {N : System τ β} {f : σ → τ} {g : α → Option β}
    (hinit : ∀ s, M.init s → N.init (f s))
    (hstep : ∀ s a t, M.Reachable s → M.step s a t → N.stepOption (f s) (g a) (f t)) {s : σ}
    (hs : M.Reachable s) : N.Reachable (f s) := by
  induction hs with
  | init hi => exact .init (hinit _ hi)
  | @step s a t hs hst ih =>
      have habs : N.stepOption (f s) (g a) (f t) := hstep s a t hs hst
      cases hg : g a with
      | none =>
          rw [hg] at habs
          rw [show f t = f s from habs]
          exact ih
      | some b =>
          rw [hg] at habs
          exact .step ih habs

/-- The simulation rule, for a system `N`. -/
theorem Hist.simulate {τ β : Type*} {N : System τ β} {R : List α → σ → τ → Prop} {g : α → Option β}
    (hinit : ∀ s, M.init s → ∃ a, N.init a ∧ R [] s a)
    (hstep : ∀ h s l t a, R h s a → M.step s l t →
      ∃ b, N.stepOption a (g l) b ∧ R (l :: h) t b)
    {h : List α} {s : σ} (hs : M.Hist h s) : ∃ a, N.Hist (h.filterMap g) a ∧ R h s a := by
  induction hs with
  | init hi =>
      obtain ⟨a, ha, hR⟩ := hinit _ hi
      exact ⟨a, .init ha, hR⟩
  | @step h s l t _ hst ih =>
      obtain ⟨a, ha, hR⟩ := ih
      obtain ⟨b, hb, hR'⟩ := hstep h s l t a hR hst
      cases hg : g l with
      | none =>
          rw [hg] at hb
          obtain rfl : b = a := hb
          rw [List.filterMap_cons_none hg]
          exact ⟨b, ha, hR'⟩
      | some l' =>
          rw [hg] at hb
          rw [List.filterMap_cons_some hg]
          exact ⟨b, .step ha hb, hR'⟩

/-- A run all of whose steps meet the condition is a run. -/
theorem Reachable.of_guard {C : σ → α → Prop} {s : σ} (hs : (M.guard C).Reachable s) :
    M.Reachable s := by
  induction hs with
  | init hi => exact .init hi
  | step _ hst ih => exact .step ih hst.2

end System

end Transition
