import Mathlib.Logic.Basic
import Mathlib.Data.List.Basic

/-!
# Programs that call their environment

A program is a tree of calls: after each call it goes on with whatever the environment answers
(`Prog`).  `Executes p h r` says that an execution of `p` may have got the answers `h` so far and
be at `r`, in a call or at the end.  So a statement about all `h` and `r` is one about every moment
of every execution, also of one that never returns.

A `Contract` says when each call is allowed and what it does to a state.  `Contract.wp` is the
weakest precondition for keeping the contract: it is computed along the program (`wp_bind`,
`wp_forEach`), and `wp_iff` says that it means what it should, in both directions.

`Makes P p` is for what needs no state: all calls that `p` may make are in `P`.
-/

namespace Calls

/-- The functions that a program may call, with what each of them may answer. -/
structure Interface where
  Op : Type
  Answer : Op → Type

/-- A program. -/
inductive Prog (I : Interface) (α : Type) where
  | ret (a : α)
  | call (o : I.Op) (k : I.Answer o → Prog I α)

/-- A call and its answer. -/
structure Event (I : Interface) where
  op : I.Op
  answer : I.Answer op

variable {I : Interface} {α β σ : Type}

namespace Prog

/-- Sequential composition. -/
def bind : Prog I α → (α → Prog I β) → Prog I β
  | ret a, f => f a
  | call o k, f => call o fun x => (k x).bind f

instance : Monad (Prog I) where
  pure := ret
  bind := bind

/-- One call. -/
def perform (o : I.Op) : Prog I (I.Answer o) := call o ret

/-- A loop over a list that carries a value. -/
def forEach (step : α → β → Prog I β) : List α → β → Prog I β
  | [], b => pure b
  | a :: as, b => do
      let b ← step a b
      forEach step as b

end Prog

/-- Where an execution is. -/
inductive Place (I : Interface) (α : Type) where
  | inCall (o : I.Op)
  | returned (a : α)

/-- `Executes p h r`: an execution of `p` has made the calls `h`, oldest first, and is at `r`. -/
inductive Executes : Prog I α → List (Event I) → Place I α → Prop where
  | ret : Executes (.ret a) [] (.returned a)
  | asked : Executes (.call o k) [] (.inCall o)
  | answered {o : I.Op} {k : I.Answer o → Prog I α} (x : I.Answer o) :
      Executes (k x) h r → Executes (.call o k) (⟨o, x⟩ :: h) r

/-- One more answer, for an execution that exists. -/
theorem Executes.next {o : I.Op} {k : I.Answer o → Prog I α} {r : Place I α} (x : I.Answer o)
    (h : ∃ h, Executes (k x) h r) : ∃ h, Executes (.call o k) h r :=
  ⟨_, .answered x h.choose_spec⟩

/-- An execution of a composition is in the first program, or that has returned. -/
theorem Executes.of_bind {p : Prog I α} {f : α → Prog I β} {h : List (Event I)} {r : Place I β}
    (he : Executes (p >>= f) h r) :
    (∃ o, r = .inCall o ∧ Executes p h (.inCall o)) ∨
      ∃ a h₁ h₂, Executes p h₁ (.returned a) ∧ Executes (f a) h₂ r := by
  replace he : Executes (p.bind f) h r := he
  induction p generalizing h with
  | ret a => exact .inr ⟨a, [], h, .ret, he⟩
  | call o k ih =>
      cases he with
      | asked => exact .inl ⟨o, rfl, .asked⟩
      | answered x hx =>
          refine (ih x hx).imp ?_ ?_
          · rintro ⟨o', hr, hp⟩
            exact ⟨o', hr, .answered x hp⟩
          · rintro ⟨a, h₁, h₂, hp, hf⟩
            exact ⟨a, _, h₂, .answered x hp, hf⟩

/-! ## Kinds of calls -/

/-- The program makes only calls that are in `P`. -/
def Makes (P : I.Op → Prop) : Prog I α → Prop
  | .ret _ => True
  | .call o k => P o ∧ ∀ x, Makes P (k x)

namespace Makes

variable {P : I.Op → Prop} {p q : Prog I α}

theorem pure (a : α) : Makes P (Pure.pure a : Prog I α) := trivial

theorem mono {P' : I.Op → Prop} (hp : Makes P p) (h : ∀ o, P o → P' o) : Makes P' p := by
  induction p with
  | ret a => trivial
  | call o k ih => exact ⟨h o hp.1, fun x => ih x (hp.2 x)⟩

theorem perform {o : I.Op} (h : P o) : Makes P (Prog.perform o) := ⟨h, fun _ => trivial⟩

theorem bind {f : α → Prog I β} (hp : Makes P p) (hf : ∀ a, Makes P (f a)) :
    Makes P (p >>= f) := by
  show Makes P (p.bind f)
  induction p with
  | ret a => exact hf a
  | call o k ih => exact ⟨hp.1, fun x => ih x (hp.2 x)⟩

theorem ite {c : Prop} [Decidable c] (hp : Makes P p) (hq : Makes P q) :
    Makes P (if c then p else q) := by
  split
  · exact hp
  · exact hq

theorem forEach {step : α → β → Prog I β} (hstep : ∀ a b, Makes P (step a b)) {as : List α}
    {b : β} : Makes P (Prog.forEach step as b) := by
  induction as generalizing b with
  | nil => trivial
  | cons a as ih => exact bind (hstep a b) fun _ => ih

theorem inCall (hp : Makes P p) {h : List (Event I)} {o : I.Op} (he : Executes p h (.inCall o)) :
    P o := by
  induction p generalizing h with
  | ret a => cases he
  | call o k ih =>
      cases he with
      | asked => exact hp.1
      | answered x hx => exact ih x (hp.2 x) hx

end Makes

/-! ## Contracts -/

/-- When a call is allowed, and what an answered call does. -/
structure Contract (I : Interface) (σ : Type) where
  pre : I.Op → σ → Prop
  next : Event I → σ → σ

namespace Contract

variable (C : Contract I σ)

/-- The state after some calls. -/
def after (s : σ) (h : List (Event I)) : σ := h.foldl (fun s e => C.next e s) s

/-- The contract that allows only the calls in `P`. -/
def restrict (P : I.Op → Prop) : Contract I σ where
  pre o s := P o ∧ C.pre o s
  next := C.next

/-- The call is allowed, or the result is in `Q`. -/
def Keeps (Q : α → σ → Prop) (s : σ) : Place I α → Prop
  | .inCall o => C.pre o s
  | .returned a => Q a s

/-- From the state, the program makes only allowed calls, and `Q` holds if it returns. -/
def wp : Prog I α → (α → σ → Prop) → σ → Prop
  | .ret a, Q, s => Q a s
  | .call o k, Q, s => C.pre o s ∧ ∀ x, wp (k x) Q (C.next ⟨o, x⟩ s)

variable {C}

@[simp] theorem after_nil (s : σ) : C.after s [] = s := rfl

@[simp] theorem after_cons (s : σ) (e : Event I) (h : List (Event I)) :
    C.after s (e :: h) = C.after (C.next e s) h := rfl

@[simp] theorem wp_pure (a : α) (Q : α → σ → Prop) (s : σ) :
    C.wp (pure a : Prog I α) Q s ↔ Q a s := Iff.rfl

theorem wp_perform (o : I.Op) (Q : I.Answer o → σ → Prop) (s : σ) :
    C.wp (Prog.perform o) Q s ↔ C.pre o s ∧ ∀ x, Q x (C.next ⟨o, x⟩ s) := Iff.rfl

theorem wp_of_restrict {P : I.Op → Prop} {p : Prog I α} {Q : α → σ → Prop} {s : σ}
    (h : (C.restrict P).wp p Q s) : C.wp p Q s := by
  induction p generalizing s with
  | ret a => exact h
  | call o k ih => exact ⟨h.1.2, fun x => ih x (h.2 x)⟩

/-- The rule of a program whose calls leave the state alone. -/
theorem wp_of_makes {P : I.Op → Prop} {p : Prog I α} {s : σ} (hp : Makes P p)
    (hP : ∀ o, P o → C.pre o s ∧ ∀ x, C.next ⟨o, x⟩ s = s) : C.wp p (fun _ t => t = s) s := by
  induction p with
  | ret a => rfl
  | call o k ih =>
      refine ⟨(hP o hp.1).1, fun x => ?_⟩
      rw [(hP o hp.1).2 x]
      exact ih x (hp.2 x)

/-- The rule of sequential composition. -/
theorem wp_bind (p : Prog I α) (f : α → Prog I β) (Q : β → σ → Prop) (s : σ) :
    C.wp (p >>= f) Q s ↔ C.wp p (fun a t => C.wp (f a) Q t) s := by
  show C.wp (p.bind f) Q s ↔ _
  induction p generalizing s with
  | ret a => rfl
  | call o k ih => exact and_congr_right fun _ => forall_congr' fun x => ih x _

/-- The rule of consequence. -/
theorem wp_mono {p : Prog I α} {Q Q' : α → σ → Prop} {s : σ} (h : C.wp p Q s)
    (hQ : ∀ a t, Q a t → Q' a t) : C.wp p Q' s := by
  induction p generalizing s with
  | ret a => exact hQ a s h
  | call o k ih => exact ⟨h.1, fun x => ih x (h.2 x)⟩

/-- The rule of the conditional. -/
theorem wp_ite {c : Prop} [Decidable c] (p q : Prog I α) (Q : α → σ → Prop) (s : σ) :
    C.wp (if c then p else q) Q s ↔ if c then C.wp p Q s else C.wp q Q s := by
  split <;> rfl

/-- The rule of the loop: an invariant of what is still to do, the value and the state. -/
theorem wp_forEach {step : α → β → Prog I β} (Inv : List α → β → σ → Prop)
    (hstep : ∀ a as b s, Inv (a :: as) b s → C.wp (step a b) (fun b' t => Inv as b' t) s)
    {as : List α} {b : β} {s : σ} (hinv : Inv as b s) :
    C.wp (Prog.forEach step as b) (fun b' t => Inv [] b' t) s := by
  induction as generalizing b s with
  | nil => exact hinv
  | cons a as ih =>
      rw [Prog.forEach, wp_bind]
      exact wp_mono (hstep a as b s hinv) fun b' t ht => ih ht

/-- The rule of the loop over a list with indices: an invariant of the number of rounds done. -/
theorem wp_forEach_zipIdx {l : List α} {step : α × Nat → β → Prog I β}
    (Inv : Nat → β → σ → Prop)
    (hstep : ∀ k (hk : k < l.length) b s, Inv k b s →
      C.wp (step (l[k], k) b) (fun b' t => Inv (k + 1) b' t) s) {b : β} {s : σ}
    (hinv : Inv 0 b s) :
    C.wp (Prog.forEach step l.zipIdx b) (fun b' t => Inv l.length b' t) s := by
  let Rest (as : List (α × Nat)) (b : β) (t : σ) : Prop :=
    ∃ k, k ≤ l.length ∧ as = (l.drop k).zipIdx k ∧ Inv k b t
  refine wp_mono (wp_forEach Rest ?_ ⟨0, Nat.zero_le _, rfl, hinv⟩) ?_
  rotate_left
  · rintro b' t ⟨k, hk, hnil, ht⟩
    have hlen := congrArg List.length hnil
    simp at hlen
    rwa [show l.length = k by omega]
  · rintro a as b s ⟨k, hk, hcons, hs⟩
    have hlt : k < l.length := by
      have hlen := congrArg List.length hcons
      simp at hlen
      omega
    rw [List.drop_eq_getElem_cons hlt, List.zipIdx_cons] at hcons
    obtain ⟨rfl, rfl⟩ := List.cons_eq_cons.mp hcons
    exact wp_mono (hstep k hlt b s hs) fun b' t ht => ⟨k + 1, hlt, rfl, ht⟩

/-- The weakest precondition is what it should be. -/
theorem wp_iff (p : Prog I α) (Q : α → σ → Prop) (s : σ) :
    C.wp p Q s ↔ ∀ h r, Executes p h r → C.Keeps Q (C.after s h) r := by
  induction p generalizing s with
  | ret a =>
      constructor
      · intro hQ h r he
        cases he
        exact hQ
      · intro h
        exact h [] _ .ret
  | call o k ih =>
      constructor
      · intro hwp h r he
        cases he with
        | asked => exact hwp.1
        | answered x hx => exact (ih x _).mp (hwp.2 x) _ _ hx
      · intro h
        refine ⟨h [] _ .asked, fun x => (ih x _).mpr fun h' r he => ?_⟩
        exact h _ r (.answered x he)

/-- Some execution from the state `s` is at `r`, with a state in `Q`. -/
def Reaches (C : Contract I σ) (p : Prog I α) (r : Place I α) (Q : σ → Prop) (s : σ) : Prop :=
  ∃ h, Executes p h r ∧ Q (C.after s h)

namespace Reaches

variable {r : Place I α} {Q : σ → Prop} {s : σ}

theorem returned {a : α} (h : Q s) : C.Reaches (.ret a) (.returned a) Q s := ⟨[], .ret, h⟩

/-- One more answer. -/
theorem next {o : I.Op} {k : I.Answer o → Prog I α} (x : I.Answer o)
    (h : C.Reaches (k x) r Q (C.next ⟨o, x⟩ s)) : C.Reaches (.call o k) r Q s := by
  obtain ⟨h, hexec, hQ⟩ := h
  exact ⟨⟨o, x⟩ :: h, .answered x hexec, hQ⟩

end Reaches

end Contract

end Calls
