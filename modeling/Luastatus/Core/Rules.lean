import Luastatus.Core.LifeCycle
import Mathlib.Data.Finset.Insert

/-!
# Rules for the calls of the core

A set of held resources is written as `ledger G P`: the global resources in `G`, and the parts in
`P i` of each widget `i`.  Each kind of call has a rule in this form, which says what must be in `G`
and `P` and what is in them afterwards; so do the functions that load a library.
-/

namespace Luastatus.Core.LifeCycle

open Text (Bytes CString)
open Calls Resources Contract

/-! ## Ledgers -/

/-- The held resources, by widget. -/
def ledger (G : Finset Global) (P : Nat → Finset Part) : Set Resource :=
  { r | match r with
    | .global g => g ∈ G
    | .part i p => p ∈ P i }

/-- The parts of the widget `i` are `A`, those of the others as in `P`. -/
def withParts (P : Nat → Finset Part) (i : Nat) (A : Finset Part) : Nat → Finset Part :=
  Function.update P i A

variable {G : Finset Global} {P : Nat → Finset Part} {A : Finset Part} {i n : Nat} {p : Part}
  {g : Global} {α : Type}

@[simp] theorem mem_ledger_global : Resource.global g ∈ ledger G P ↔ g ∈ G := Iff.rfl

@[simp] theorem mem_ledger_part : Resource.part i p ∈ ledger G P ↔ p ∈ P i := Iff.rfl

@[simp] theorem withParts_self : withParts P i A i = A := Function.update_self ..

@[simp] theorem withParts_withParts {A' : Finset Part} :
    withParts (withParts P i A) i A' = withParts P i A' := Function.update_idem ..

theorem withParts_of_ne {j : Nat} (h : j ≠ i) : withParts P i A j = P j :=
  Function.update_of_ne h ..

theorem withParts_eq_self : withParts P i (P i) = P := Function.update_eq_self ..

theorem insert_global : insert (.global g) (ledger G P) = ledger (insert g G) P := by
  ext r
  cases r <;> simp [Set.mem_insert_iff]

theorem insert_part :
    insert (.part i p) (ledger G (withParts P i A)) = ledger G (withParts P i (insert p A)) := by
  ext r
  cases r with
  | global g => simp [Set.mem_insert_iff]
  | part j q =>
      by_cases hj : j = i
      · subst hj
        simp [Set.mem_insert_iff]
      · simp [Set.mem_insert_iff, hj, withParts_of_ne hj]

theorem diff_global : ledger G P \ {.global g} = ledger (G.erase g) P := by
  ext r
  cases r <;> simp [and_comm]

theorem diff_part :
    ledger G (withParts P i A) \ {.part i p} = ledger G (withParts P i (A.erase p)) := by
  ext r
  cases r with
  | global g => simp
  | part j q =>
      by_cases hj : j = i
      · subst hj
        simp [and_comm]
      · simp [hj, withParts_of_ne hj]

/-! ## Kinds of calls -/

theorem makes_call {P' : Op → Prop} {o : Op} (h : P' o) : Makes (I := interface) P' (call o) :=
  .perform h

theorem makes_onlyIf {P' : Op → Prop} {c : Bool} {q : Prog Unit} (h : Makes P' q) :
    Makes (I := interface) P' (onlyIf c q) := .ite h (.pure ())

/-! ## Rules -/

/-- The rule of a call, before its accesses are looked at. -/
theorem wp_call {o : Op} {Q : o.Answer → Set Resource → Prop} {s : Set Resource} :
    (rules n).wp (call o) Q s ↔
      (o.Fits n ∧ ∀ x, LegalAll needs s (accesses ⟨o, x⟩)) ∧
        ∀ x, Q x (applyAll s (accesses ⟨o, x⟩)) := Iff.rfl

theorem wp_acquire {r : Resource} {Q : Unit → Set Resource → Prop} {s : Set Resource} :
    (rules n).wp (acquire r) Q s ↔
      Access.Legal needs s (.acquire r) ∧ Q () (insert r s) := by
  constructor
  · intro h
    exact ⟨(h.1.2 ()).1, h.2 ()⟩
  · intro h
    exact ⟨⟨trivial, fun _ => ⟨h.1, trivial⟩⟩, fun _ => h.2⟩

theorem wp_release {r : Resource} {Q : Unit → Set Resource → Prop} {s : Set Resource} :
    (rules n).wp (release r) Q s ↔
      Access.Legal needs s (.release r) ∧ Q () (s \ {r}) := by
  constructor
  · intro h
    exact ⟨(h.1.2 ()).1, h.2 ()⟩
  · intro h
    exact ⟨⟨trivial, fun _ => ⟨h.1, trivial⟩⟩, fun _ => h.2⟩

theorem legal_acquire_global :
    Access.Legal needs (ledger G P) (.acquire (.global g)) ↔ g ∉ G ∧ ∀ g' ∈ g.needs, g' ∈ G := by
  refine and_congr Iff.rfl ⟨fun h g' hg' => h (.global g') hg', fun h r hr => ?_⟩
  cases r with
  | global g' => exact h g' hr
  | part j q => exact hr.elim

theorem legal_acquire_part :
    Access.Legal needs (ledger G (withParts P i A)) (.acquire (.part i p)) ↔
      p ∉ A ∧ (∀ q ∈ p.needs, q ∈ A) ∧ ∀ g ∈ p.needsGlobal, g ∈ G := by
  refine and_congr (by simp) ⟨fun h => ⟨fun q hq => ?_, fun g hg => h (.global g) hg⟩, ?_⟩
  · simpa using h (.part i q) ⟨rfl, hq⟩
  · intro h r hr
    cases r with
    | global g => exact h.2 g hr
    | part j q =>
        obtain ⟨rfl, hq⟩ := hr
        simpa using h.1 q hq

theorem legal_release_global :
    Access.Legal needs (ledger G P) (.release (.global g)) ↔
      g ∈ G ∧ (∀ g' ∈ G, g ∉ g'.needs) ∧ ∀ i, ∀ p ∈ P i, g ∉ p.needsGlobal := by
  refine and_congr Iff.rfl ⟨fun h => ⟨fun g' hg' => ?_, fun i p hp => ?_⟩, fun h r hr => ?_⟩
  · exact h (.global g') hg'
  · exact h (.part i p) hp
  · cases r with
    | global g' => exact h.1 g' hr
    | part j q => exact h.2 j q hr

theorem legal_release_part :
    Access.Legal needs (ledger G (withParts P i A)) (.release (.part i p)) ↔
      p ∈ A ∧ ∀ q ∈ A, p ∉ q.needs := by
  refine and_congr (by simp) ⟨fun h q hq => ?_, fun h r hr => ?_⟩
  · have hq' : Resource.part i q ∈ ledger G (withParts P i A) := by simpa using hq
    exact fun hp => h _ hq' ⟨rfl, hp⟩
  · cases r with
    | global g' => exact id
    | part j q =>
        rintro ⟨rfl, hp⟩
        exact h q (by simpa using hr) hp

theorem wp_acquire_global {Q : Unit → Set Resource → Prop} :
    (rules n).wp (acquire (.global g)) Q (ledger G P) ↔
      (g ∉ G ∧ ∀ g' ∈ g.needs, g' ∈ G) ∧ Q () (ledger (insert g G) P) := by
  rw [wp_acquire, legal_acquire_global, insert_global]

theorem wp_acquire_part {Q : Unit → Set Resource → Prop} :
    (rules n).wp (acquire (.part i p)) Q (ledger G (withParts P i A)) ↔
      (p ∉ A ∧ (∀ q ∈ p.needs, q ∈ A) ∧ ∀ g ∈ p.needsGlobal, g ∈ G) ∧
        Q () (ledger G (withParts P i (insert p A))) := by
  rw [wp_acquire, legal_acquire_part, insert_part]

theorem wp_release_global {Q : Unit → Set Resource → Prop} :
    (rules n).wp (release (.global g)) Q (ledger G P) ↔
      (g ∈ G ∧ (∀ g' ∈ G, g ∉ g'.needs) ∧ ∀ i, ∀ p ∈ P i, g ∉ p.needsGlobal) ∧
        Q () (ledger (G.erase g) P) := by
  rw [wp_release, legal_release_global, diff_global]

theorem wp_release_part {Q : Unit → Set Resource → Prop} :
    (rules n).wp (release (.part i p)) Q (ledger G (withParts P i A)) ↔
      (p ∈ A ∧ ∀ q ∈ A, p ∉ q.needs) ∧ Q () (ledger G (withParts P i (A.erase p))) := by
  rw [wp_release, legal_release_part, diff_part]

/-- The rule of a call that only uses resources. -/
theorem wp_ask {o : Op} {Q : o.Answer → Set Resource → Prop} {s : Set Resource}
    (rs : List Resource) (hacc : ∀ x, accesses ⟨o, x⟩ = rs.map .use) (hfits : o.Fits n)
    (hrs : ∀ r ∈ rs, r ∈ s) (hQ : ∀ x, Q x s) : (rules n).wp (call o) Q s := by
  refine wp_call.mpr ⟨⟨hfits, fun x => ?_⟩, fun x => ?_⟩
  · rw [hacc, legalAll_uses]
    exact hrs
  · rw [hacc, applyAll_uses]
    exact hQ x

/-- The rule of a call that uses resources and acquires another one if it succeeds. -/
theorem wp_try {o : Op} {Q : o.Answer → Set Resource → Prop} {s : Set Resource}
    (rs : List Resource) (r : Resource) (ok : o.Answer → Bool)
    (hacc : ∀ x, accesses ⟨o, x⟩ = rs.map .use ++ acquireIf (ok x) r) (hfits : o.Fits n)
    (hrs : ∀ r ∈ rs, r ∈ s) (hr : Access.Legal needs s (.acquire r))
    (hQ : ∀ x, ok x = true → Q x (insert r s)) (hQ' : ∀ x, ok x = false → Q x s) :
    (rules n).wp (call o) Q s := by
  refine wp_call.mpr ⟨⟨hfits, fun x => ?_⟩, fun x => ?_⟩
  · rw [hacc, legalAll_append, legalAll_uses, applyAll_uses]
    refine ⟨hrs, ?_⟩
    cases hok : ok x with
    | false => trivial
    | true => exact ⟨hr, trivial⟩
  · rw [hacc, applyAll_append, applyAll_uses]
    cases hok : ok x with
    | false => exact hQ' x hok
    | true => exact hQ x hok

theorem wp_onlyIf {c : Bool} {q : Prog Unit} {Q : Unit → Set Resource → Prop}
    {s : Set Resource} :
    (rules n).wp (onlyIf c q) Q s ↔ if c then (rules n).wp q Q s else Q () s := by
  cases c <;> rfl

/-! ## Libraries -/

variable {B : Build}

theorem wp_openLibrary {l : Library} {filename : Bytes}
    {Q : Except Bool l.Iface → Set Resource → Prop} {s : Set Resource}
    (hlegal : Access.Legal needs s (.acquire l.handle))
    (hok : ∀ iface, Q (.ok iface) (insert l.handle s))
    (hopen : Q (.error true) (insert l.handle s)) (hclosed : Q (.error false) s) :
    (rules n).wp (openLibrary B l filename) Q s := by
  unfold openLibrary
  rw [wp_bind]
  refine wp_try [] l.handle id (fun _ => rfl) trivial (by simp) hlegal ?_ ?_
  · intro ok htrue
    rw [show ok = true from htrue, if_pos rfl, wp_bind]
    refine wp_ask [l.handle] (fun _ => rfl) trivial (by simp) fun version => ?_
    cases version with
    | none => exact hopen
    | some v =>
        rw [wp_ite]
        split
        · rw [wp_bind]
          refine wp_ask [l.handle] (fun _ => rfl) trivial (by simp) fun iface => ?_
          cases iface with
          | none => exact hopen
          | some iface => exact hok iface
        · exact hopen
  · intro ok hfalse
    rw [show ok = false from hfalse, if_neg Bool.false_ne_true]
    exact hclosed

/-- What a widget has before its plugin is loaded. -/
def freshParts : Finset Part := {.lua, .luaMtx, .filename, .comm}

/-- What it has when its plugin is loaded. -/
def loadedParts : Finset Part := insert .pluginHandle (insert .pluginName freshParts)

/-- What an initialized widget has. -/
def normalParts : Finset Part := insert .pluginData loadedParts

/-- What it has with its thread. -/
def runningParts : Finset Part := insert .thread normalParts

theorem needsGlobal_subset (hwidgets : .widgets ∈ G) (hp : p.needsGlobal = [.widgets]) :
    ∀ g ∈ p.needsGlobal, g ∈ G := by
  simpa [hp] using hwidgets

theorem wp_pluginLoad {filename : Bytes} {Q : Option PluginIface → Set Resource → Prop}
    (hwidgets : .widgets ∈ G)
    (hsome : ∀ iface, Q (some iface) (ledger G (withParts P i loadedParts)))
    (hnone : Q none (ledger G (withParts P i freshParts))) :
    (rules n).wp (pluginLoad B i filename) Q (ledger G (withParts P i freshParts)) := by
  unfold pluginLoad
  rw [wp_bind, wp_acquire_part]
  refine ⟨⟨by decide, by decide, needsGlobal_subset hwidgets rfl⟩, ?_⟩
  have hhandle : insert (Library.plugin i).handle
      (ledger G (withParts P i (insert .pluginName freshParts))) =
        ledger G (withParts P i loadedParts) := insert_part
  have hname : (insert Part.pluginName freshParts).erase .pluginName = freshParts := by decide
  rw [wp_bind]
  refine wp_openLibrary ?_ (fun iface => ?_) ?_ ?_
  · exact legal_acquire_part.mpr ⟨by decide, by decide, needsGlobal_subset hwidgets rfl⟩
  · rw [hhandle]
    exact hsome iface
  · have hback : (loadedParts.erase .pluginHandle).erase .pluginName = freshParts := by decide
    rw [hhandle]
    simp only [wp_bind, wp_onlyIf, if_true, wp_release_part, wp_pure, hback]
    exact ⟨⟨by decide, by decide⟩, ⟨by decide, by decide⟩, hnone⟩
  · simp only [wp_bind, wp_onlyIf, Bool.false_eq_true, if_false, wp_release_part, wp_pure, hname]
    exact ⟨⟨by decide, by decide⟩, hnone⟩

/-- A temporary string is freed by the function that allocates it. -/
theorem wp_tmpFilename {p : Prog α} {Q : α → Set Resource → Prop} (htmp : .tmpFilename ∉ G)
    (hp : (rules n).wp p (fun a s => ∃ G' P', s = ledger (insert .tmpFilename G') P' ∧
      .tmpFilename ∉ G' ∧ Q a (ledger G' P')) (ledger (insert .tmpFilename G) P)) :
    (rules n).wp (do
      acquire (.global .tmpFilename)
      let r ← p
      release (.global .tmpFilename)
      pure r) Q (ledger G P) := by
  rw [wp_bind, wp_acquire_global]
  refine ⟨⟨htmp, List.forall_mem_nil _⟩, ?_⟩
  rw [wp_bind]
  refine wp_mono hp fun a s => ?_
  rintro ⟨G', P', rfl, hG', hQ⟩
  rw [wp_bind, wp_release_global, Finset.erase_insert hG']
  refine ⟨⟨Finset.mem_insert_self .., fun g _ => ?_, fun i q _ => ?_⟩, hQ⟩
  · cases g <;> decide
  · cases q <;> decide

theorem wp_pluginLoadByName {name : CString} {Q : Option PluginIface → Set Resource → Prop}
    (hwidgets : .widgets ∈ G) (htmp : .tmpFilename ∉ G)
    (hsome : ∀ iface, Q (some iface) (ledger G (withParts P i loadedParts)))
    (hnone : Q none (ledger G (withParts P i freshParts))) :
    (rules n).wp (pluginLoadByName B i name) Q (ledger G (withParts P i freshParts)) := by
  unfold pluginLoadByName
  rw [wp_ite]
  split
  · exact wp_pluginLoad hwidgets hsome hnone
  · refine wp_tmpFilename htmp (wp_pluginLoad (Finset.mem_insert_of_mem hwidgets) ?_ ?_)
    · exact fun iface => ⟨_, _, rfl, htmp, hsome iface⟩
    · exact ⟨_, _, rfl, htmp, hnone⟩

end Luastatus.Core.LifeCycle
