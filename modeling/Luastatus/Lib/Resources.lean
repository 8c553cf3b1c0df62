import Luastatus.Lib.Calls
import Mathlib.Data.Set.Insert

/-!
# Resources

A resource is acquired, used and released.  Some resources need others: what a resource needs must
be held while it is held.  `Access.Legal` says when an access is allowed with the resources `s`
held, and `Access.apply` what is held after it.

`contract` is the contract of programs each of whose calls makes some accesses, which may depend on
the answer.  A program that keeps it uses only what is held, releases only what is held, and never
takes away what is needed (`Closed`).  Over any calls it has released as often as it has acquired,
up to what is held before and after them (`count_acquires`).
-/

namespace Resources

/-- What is done to a resource. -/
inductive Access (R : Type) where
  | acquire (r : R)
  | use (r : R)
  | release (r : R)
deriving DecidableEq

variable {R : Type} {needs : R → R → Prop} {s : Set R}

/-- The access is allowed while the resources in `s` are held. -/
def Access.Legal (needs : R → R → Prop) (s : Set R) : Access R → Prop
  | acquire r => r ∉ s ∧ ∀ b, needs r b → b ∈ s
  | use r => r ∈ s
  | release r => r ∈ s ∧ ∀ a ∈ s, ¬needs a r

/-- What is held after the access. -/
def Access.apply (s : Set R) : Access R → Set R
  | acquire r => insert r s
  | use _ => s
  | release r => s \ {r}

/-- What is held after the accesses. -/
def applyAll (s : Set R) (as : List (Access R)) : Set R := as.foldl Access.apply s

/-- The accesses are allowed, one after the other. -/
def LegalAll (needs : R → R → Prop) : Set R → List (Access R) → Prop
  | _, [] => True
  | s, a :: as => a.Legal needs s ∧ LegalAll needs (a.apply s) as

@[simp] theorem applyAll_nil : applyAll s [] = s := rfl

@[simp] theorem applyAll_cons (a : Access R) (as : List (Access R)) :
    applyAll s (a :: as) = applyAll (a.apply s) as := rfl

@[simp] theorem legalAll_nil : LegalAll needs s [] := trivial

@[simp] theorem legalAll_cons (a : Access R) (as : List (Access R)) :
    LegalAll needs s (a :: as) ↔ a.Legal needs s ∧ LegalAll needs (a.apply s) as := Iff.rfl

theorem applyAll_append (as bs : List (Access R)) :
    applyAll s (as ++ bs) = applyAll (applyAll s as) bs := List.foldl_append

theorem legalAll_append {as bs : List (Access R)} :
    LegalAll needs s (as ++ bs) ↔ LegalAll needs s as ∧ LegalAll needs (applyAll s as) bs := by
  induction as generalizing s with
  | nil => simp
  | cons a as ih => simp [ih, and_assoc]

theorem legalAll_uses {rs : List R} : LegalAll needs s (rs.map .use) ↔ ∀ r ∈ rs, r ∈ s := by
  induction rs with
  | nil => simp
  | cons r rs ih => simp [Access.Legal, Access.apply, ih]

theorem applyAll_uses {rs : List R} : applyAll s (rs.map .use) = s := by
  induction rs with
  | nil => rfl
  | cons r rs ih => exact ih

/-- What is needed is held. -/
def Closed (needs : R → R → Prop) (s : Set R) : Prop := ∀ a ∈ s, ∀ b, needs a b → b ∈ s

theorem Closed.apply (h : Closed needs s) {a : Access R} (hl : a.Legal needs s) :
    Closed needs (a.apply s) := by
  cases a with
  | use r => exact h
  | acquire r =>
      intro a ha b hb
      rcases ha with rfl | ha
      · exact .inr (hl.2 b hb)
      · exact .inr (h a ha b hb)
  | release r =>
      intro a ha b hb
      refine ⟨h a ha.1 b hb, fun he => ?_⟩
      obtain rfl : b = r := he
      exact hl.2 a ha.1 hb

theorem Closed.applyAll {as : List (Access R)} (h : Closed needs s) (hl : LegalAll needs s as) :
    Closed needs (applyAll s as) := by
  induction as generalizing s with
  | nil => exact h
  | cons a as ih => exact ih (h.apply hl.1) hl.2

/-! ## The balance -/

section Balance

open Classical in
/-- `1` for a resource that is held. -/
noncomputable def held (s : Set R) (r : R) : Nat := if r ∈ s then 1 else 0

theorem held_of_mem {r : R} (h : r ∈ s) : held s r = 1 := if_pos h

theorem held_of_notMem {r : R} (h : r ∉ s) : held s r = 0 := if_neg h

theorem held_congr {t : Set R} {r : R} (h : r ∈ s ↔ r ∈ t) : held s r = held t r := by
  by_cases hr : r ∈ s
  · rw [held_of_mem hr, held_of_mem (h.mp hr)]
  · rw [held_of_notMem hr, held_of_notMem fun ht => hr (h.mpr ht)]

variable [DecidableEq R]

/-- The balance of one access. -/
theorem Access.balance {a : Access R} (hl : a.Legal needs s) (r : R) :
    [a].count (.acquire r) + held s r = [a].count (.release r) + held (a.apply s) r := by
  cases a with
  | use q => simp [Access.apply]
  | acquire q =>
      by_cases he : q = r
      · subst he
        rw [held_of_notMem hl.1, Access.apply, held_of_mem (Set.mem_insert q s)]
        simp
      · have hmem : r ∈ s ↔ r ∈ insert q s := by simp [Ne.symm he]
        rw [Access.apply, held_congr hmem]
        simp [he]
  | release q =>
      by_cases he : q = r
      · subst he
        rw [held_of_mem hl.1, Access.apply, held_of_notMem fun h => h.2 rfl]
        simp
      · have hmem : r ∈ s ↔ r ∈ s \ {q} := by simp [Ne.symm he]
        rw [Access.apply, held_congr hmem]
        simp [he]

/-- A resource is acquired as often as it is released, up to what is held at the ends. -/
theorem count_acquires {as : List (Access R)} (hl : LegalAll needs s as) (r : R) :
    as.count (.acquire r) + held s r = as.count (.release r) + held (applyAll s as) r := by
  induction as generalizing s with
  | nil => rfl
  | cons a as ih =>
      have hhead := Access.balance hl.1 r
      have htail := ih hl.2
      simp only [List.count_cons, List.count_nil, Nat.zero_add] at hhead ⊢
      rw [applyAll_cons]
      omega

end Balance

/-! ## The contract -/

variable {I : Calls.Interface} {α : Type} {acts : Calls.Event I → List (Access R)}

/-- A call is allowed if its accesses are, whatever the answer is. -/
def contract (needs : R → R → Prop) (acts : Calls.Event I → List (Access R)) :
    Calls.Contract I (Set R) where
  pre o s := ∀ x, LegalAll needs s (acts ⟨o, x⟩)
  next e s := applyAll s (acts e)

/-- The accesses of some calls. -/
def accesses (acts : Calls.Event I → List (Access R)) (h : List (Calls.Event I)) :
    List (Access R) :=
  h.flatMap acts

/-- The accesses of a program that keeps the contract are allowed. -/
theorem legalAll_of_wp {p : Calls.Prog I α} {Q : α → Set R → Prop}
    (hwp : (contract needs acts).wp p Q s) {h : List (Calls.Event I)} {r : Calls.Place I α}
    (he : Calls.Executes p h r) : LegalAll needs s (accesses acts h) := by
  induction he generalizing s with
  | ret => trivial
  | asked => trivial
  | answered x _ ih => exact legalAll_append.mpr ⟨hwp.1 x, ih (hwp.2 x)⟩

theorem after_eq (needs : R → R → Prop) (h : List (Calls.Event I)) :
    (contract needs acts).after s h = applyAll s (accesses acts h) := by
  induction h generalizing s with
  | nil => rfl
  | cons e h ih =>
      rw [Calls.Contract.after_cons, ih]
      exact List.foldl_append.symm

end Resources
