import Mathlib.Data.List.Basic
import Mathlib.Data.List.Induction
import Mathlib.Data.Int.Order.Basic

/-!
# Brackets

The depth of a list is the number of its opening brackets less the number of its closing ones.
`Nested` is the grammar of lists in which the brackets match.  A list is nested if and only if no
prefix of it has a negative depth and its own depth is zero (`nested_iff`).

An element stands inside of brackets if a pair of matching brackets encloses it (`Enclosed`).  In a
nested list these are the elements before which the depth is not zero (`enclosed_iff`).
-/

namespace Brackets

variable {α : Type*} [DecidableEq α] (op cl : α)

/-- What an element adds to the depth. -/
def weight (x : α) : Int := if x = op then 1 else if x = cl then -1 else 0

/-- The depth of a list. -/
def depth (s : List α) : Int := (s.count op : Int) - s.count cl

/-- The lists in which the brackets match. -/
inductive Nested : List α → Prop where
  | nil : Nested []
  | other {x : α} {s : List α} : x ≠ op → x ≠ cl → Nested s → Nested (x :: s)
  | group {s t : List α} : Nested s → Nested t → Nested (op :: s ++ cl :: t)

/-- Matching brackets enclose the place between `p` and `q`, where `x` stands. -/
def Enclosed (p : List α) (x : α) (q : List α) : Prop :=
  ∃ a b c e, p = a ++ op :: b ∧ q = c ++ cl :: e ∧ Nested op cl (b ++ x :: c)

/-- No prefix has a negative depth, and the depth is zero. -/
structure Level (s : List α) : Prop where
  nonneg : ∀ p q, s = p ++ q → 0 ≤ depth op cl p
  zero : depth op cl s = 0

variable {op cl}

/-! ## The depth -/

@[simp] theorem depth_nil : depth op cl [] = 0 := by simp [depth]

@[simp] theorem depth_append (s t : List α) :
    depth op cl (s ++ t) = depth op cl s + depth op cl t := by
  simp only [depth, List.count_append, Int.natCast_add]
  omega

theorem depth_cons (hne : op ≠ cl) (x : α) (s : List α) :
    depth op cl (x :: s) = weight op cl x + depth op cl s := by
  simp only [depth, weight, List.count_cons, Int.natCast_add, beq_iff_eq]
  by_cases hop : x = op
  · have hcl : x ≠ cl := fun he => hne (hop.symm.trans he)
    simp [hop, hne]
    omega
  · by_cases hcl : x = cl
    · simp [hcl, Ne.symm hne]
      omega
    · simp [hop, hcl]

theorem weight_open : weight op cl op = 1 := if_pos rfl

theorem weight_close (hne : op ≠ cl) : weight op cl cl = -1 := by
  rw [weight, if_neg (Ne.symm hne), if_pos rfl]

theorem weight_other {x : α} (hop : x ≠ op) (hcl : x ≠ cl) : weight op cl x = 0 := by
  rw [weight, if_neg hop, if_neg hcl]

/-- An element that takes the depth down is a closing bracket. -/
theorem eq_close_of_weight_neg {x : α} (h : weight op cl x < 0) :
    x = cl ∧ weight op cl x = -1 := by
  rw [weight] at h ⊢
  split at h
  · omega
  · rename_i hop
    split at h
    · exact ⟨‹_›, by rw [if_neg hop, if_pos ‹_›]⟩
    · omega

theorem eq_open_of_weight_pos {x : α} (h : 0 < weight op cl x) :
    x = op ∧ weight op cl x = 1 := by
  rw [weight] at h ⊢
  split at h
  · exact ⟨‹_›, by simp [*]⟩
  · split at h <;> omega

/-! ## Matching brackets -/

/-- Where the depth becomes negative for the first time, a closing bracket stands without a match,
and what stands before it is level. -/
theorem exists_close (hne : op ≠ cl) (q : List α) :
    ∀ r : List α, (∀ p t, r = p ++ t → 0 ≤ depth op cl p) → depth op cl (r ++ q) < 0 →
      ∃ c e, r ++ q = c ++ cl :: e ∧ Level op cl c := by
  induction q with
  | nil =>
      intro r hr hneg
      have := hr r [] (List.append_nil r).symm
      rw [List.append_nil] at hneg
      omega
  | cons x q ih =>
      intro r hr hneg
      have hr0 := hr r [] (List.append_nil r).symm
      have hx := depth_cons hne x ([] : List α)
      rw [depth_nil] at hx
      by_cases hstep : 0 ≤ depth op cl (r ++ [x])
      · have hr' : ∀ p t, r ++ [x] = p ++ t → 0 ≤ depth op cl p := by
          intro p t he
          rcases List.append_eq_append_iff.mp he with ⟨a, rfl, ht⟩ | ⟨a, rfl, -⟩
          · rcases List.append_eq_singleton_iff.mp ht.symm with ⟨rfl, -⟩ | ⟨rfl, -⟩
            · rw [List.append_nil]
              exact hr0
            · exact hstep
          · exact hr p a rfl
        obtain ⟨c, e, he, hc⟩ := ih (r ++ [x]) hr' (by rwa [List.append_assoc])
        exact ⟨c, e, by rwa [List.append_assoc] at he, hc⟩
      · rw [depth_append, hx] at hstep
        obtain ⟨rfl, hw⟩ := eq_close_of_weight_neg (show weight op cl x < 0 by omega)
        exact ⟨r, q, rfl, hr, by omega⟩

/-- The last opening bracket without a match: what stands after it is level. -/
theorem exists_open (hne : op ≠ cl) (p : List α) :
    ∀ r : List α, (∀ t q, r = t ++ q → depth op cl q ≤ 0) → 0 < depth op cl (p ++ r) →
      ∃ a b, p ++ r = a ++ op :: b ∧ Level op cl b := by
  induction p using List.reverseRecOn with
  | nil =>
      intro r hr hpos
      have := hr [] r rfl
      rw [List.nil_append] at hpos
      omega
  | append_singleton p x ih =>
      intro r hr hpos
      have hr0 := hr [] r rfl
      have hx := depth_cons hne x r
      rw [List.append_assoc, List.singleton_append] at hpos ⊢
      by_cases hstep : depth op cl (x :: r) ≤ 0
      · refine ih (x :: r) ?_ hpos
        intro t q he
        cases t with
        | nil =>
            rw [List.nil_append] at he
            rwa [← he]
        | cons y t => exact hr t q (List.cons.inj he).2
      · obtain ⟨hxop, hw⟩ := eq_open_of_weight_pos (show 0 < weight op cl x by omega)
        have hzero : depth op cl r = 0 := by omega
        refine ⟨p, r, by rw [hxop], ?_, hzero⟩
        intro t q he
        have hq := hr t q he
        rw [he, depth_append] at hzero
        omega

/-! ## The grammar -/

theorem Nested.level (hne : op ≠ cl) {s : List α} (h : Nested op cl s) : Level op cl s := by
  induction h with
  | nil =>
      refine ⟨fun p q he => ?_, depth_nil⟩
      rw [(List.append_eq_nil_iff.mp he.symm).1, depth_nil]
  | other hop hcl _ ih =>
      refine ⟨fun p q he => ?_, ?_⟩
      · cases p with
        | nil => rw [depth_nil]
        | cons y p =>
            obtain ⟨rfl, htail⟩ := List.cons.inj he
            have := ih.nonneg p q htail
            rw [depth_cons hne, weight_other hop hcl]
            omega
      · rw [depth_cons hne, weight_other hop hcl, ih.zero]
        rfl
  | @group s t _ _ ihs iht =>
      have hs := ihs.zero
      refine ⟨fun p q he => ?_, ?_⟩
      · cases p with
        | nil => rw [depth_nil]
        | cons y p =>
            obtain ⟨rfl, htail⟩ := List.cons.inj he
            rw [depth_cons hne, weight_open]
            rcases List.append_eq_append_iff.mp htail with ⟨a, rfl, ha⟩ | ⟨a, rfl, -⟩
            · -- the prefix reaches beyond the group
              rw [depth_append, hs]
              cases a with
              | nil => simp
              | cons z a =>
                  obtain ⟨rfl, hrest⟩ := List.cons.inj ha
                  have := iht.nonneg a q hrest
                  rw [depth_cons hne, weight_close hne]
                  omega
            · have := ihs.nonneg p a rfl
              omega
      · rw [List.cons_append, depth_cons hne, depth_append, depth_cons hne, weight_open,
          weight_close hne, hs, iht.zero]
        rfl

theorem Level.nested (hne : op ≠ cl) {s : List α} (h : Level op cl s) : Nested op cl s := by
  match s with
  | [] => exact .nil
  | x :: s =>
      have hzero := h.zero
      rw [depth_cons hne] at hzero
      by_cases hop : x = op
      · rw [hop] at h hzero ⊢
        rw [weight_open] at hzero
        obtain ⟨c, e, hsplit, hc⟩ := exists_close hne s [] (by
          intro p t he
          rw [(List.append_eq_nil_iff.mp he.symm).1, depth_nil]) (by
          rw [List.nil_append]
          omega)
        rw [List.nil_append] at hsplit
        have hdepth (t : List α) :
            depth op cl (op :: (c ++ cl :: t)) = depth op cl t := by
          rw [depth_cons hne, depth_append, depth_cons hne, weight_open, weight_close hne, hc.zero]
          omega
        rw [hsplit] at h ⊢
        have he : Level op cl e := by
          refine ⟨fun p q hpq => ?_, ?_⟩
          · rw [← hdepth]
            refine h.nonneg _ q ?_
            rw [hpq]
            simp
          · rw [← hdepth]
            exact h.zero
        exact .group (Level.nested hne hc) (Level.nested hne he)
      · by_cases hcl : x = cl
        · have hneg := h.nonneg [x] s rfl
          rw [depth_cons hne, hcl, weight_close hne, depth_nil] at hneg
          omega
        · rw [weight_other hop hcl] at hzero
          have hs : Level op cl s := by
            refine ⟨fun p q hpq => ?_, by omega⟩
            have := h.nonneg (x :: p) q (by rw [hpq]; rfl)
            rw [depth_cons hne, weight_other hop hcl] at this
            omega
          exact .other hop hcl (Level.nested hne hs)
termination_by s.length

/-- The brackets match if and only if no prefix closes more of them than it opens, and as many are
closed as are opened. -/
theorem nested_iff (hne : op ≠ cl) {s : List α} : Nested op cl s ↔ Level op cl s :=
  ⟨Nested.level hne, Level.nested hne⟩

/-- In a nested list an element stands inside of brackets if and only if the depth before it is not
zero. -/
theorem enclosed_iff (hne : op ≠ cl) {p q : List α} {x : α} (hop : x ≠ op) (hcl : x ≠ cl)
    (h : Nested op cl (p ++ x :: q)) : Enclosed op cl p x q ↔ depth op cl p ≠ 0 := by
  have hlevel := h.level hne
  constructor
  · rintro ⟨a, b, c, e, rfl, rfl, hin⟩
    have ha := hlevel.nonneg a _ (by rw [List.append_assoc])
    have hb := (hin.level hne).nonneg b _ rfl
    rw [depth_append, depth_cons hne, weight_open]
    omega
  · intro hdepth
    have hp := hlevel.nonneg p _ rfl
    have hzero := hlevel.zero
    rw [depth_append, depth_cons hne, weight_other hop hcl] at hzero
    have hnil (p t : List α) (he : ([] : List α) = p ++ t) : p = [] ∧ t = [] :=
      List.append_eq_nil_iff.mp he.symm
    obtain ⟨a, b, hab, hb⟩ := exists_open hne p [] (by
      intro t r he
      rw [(hnil t r he).2, depth_nil]) (by
      rw [List.append_nil]
      omega)
    obtain ⟨c, e, hce, hc⟩ := exists_close hne q [] (by
      intro t r he
      rw [(hnil t r he).1, depth_nil]) (by
      rw [List.nil_append]
      omega)
    rw [List.append_nil] at hab
    rw [List.nil_append] at hce
    refine ⟨a, b, c, e, hab, hce, Level.nested hne ⟨fun s t he => ?_, ?_⟩⟩
    · rcases List.append_eq_append_iff.mp he with ⟨d, rfl, hd⟩ | ⟨d, rfl, -⟩
      · rw [depth_append, hb.zero]
        cases d with
        | nil => simp
        | cons y d =>
            obtain ⟨rfl, hrest⟩ := List.cons.inj hd
            have := hc.nonneg d t hrest
            rw [depth_cons hne, weight_other hop hcl]
            omega
      · exact hb.nonneg s d rfl
    · rw [depth_append, depth_cons hne, weight_other hop hcl, hb.zero, hc.zero]
      rfl

end Brackets
