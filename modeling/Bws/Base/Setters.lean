import Bws.Base.Proc
import Mathlib.Data.List.Basic
import Mathlib.Logic.Function.Basic

/-!
# Chains of setters

A builder is a record with one value for each field, and setters that replace the value of a field
or panic. `chain_succeeds` says that a chain of setters leaves each field with the value of its
last setter, whatever stands between.
-/

namespace Bws.Base.Setters

/-! ## The last setter of a field -/

section Last

variable {ς κ α : Type} [DecidableEq κ] (field : ς → κ) (value : ς → α)

/-- The value of a field behind some setters: that of its last setter, or the one that was there
before. -/
def last (k : κ) (setters : List ς) (before : α) : α :=
  ((setters.filter fun setter => field setter = k).map value).getLastD before

/-- The setter in front counts when no later one sets its field. -/
theorem last_cons (k : κ) (setter : ς) (setters : List ς) (before : α) :
    last field value k (setter :: setters) before =
      last field value k setters (if field setter = k then value setter else before) := by
  unfold last
  by_cases hfield : field setter = k
  · rw [List.filter_cons_of_pos (by simpa using hfield), List.map_cons, List.getLastD_cons,
      if_pos hfield]
  · rw [List.filter_cons_of_neg (by simpa using hfield), if_neg hfield]

/-- A field that no setter sets stays as it was. -/
theorem last_of_unset {k : κ} {setters : List ς} (h : ∀ setter ∈ setters, field setter ≠ k)
    (before : α) : last field value k setters before = before := by
  have hnone : (setters.filter fun setter => field setter = k) = [] :=
    List.filter_eq_nil_iff.mpr fun setter hmem => by simpa using h setter hmem
  rw [last, hnone]
  rfl

/-- What holds of the value before and of the value of each setter of the field holds of the last
value. -/
theorem last_induction {P : α → Prop} {k : κ} {setters : List ς}
    (h : ∀ setter ∈ setters, field setter = k → P (value setter)) {before : α}
    (hbefore : P before) : P (last field value k setters before) := by
  induction setters generalizing before with
  | nil => exact hbefore
  | cons setter setters ih =>
      obtain ⟨hfirst, hrest⟩ := List.forall_mem_cons.mp h
      rw [last_cons]
      refine ih hrest ?_
      split
      · next hfield => exact hfirst hfield
      · exact hbefore

end Last

/-! ## Chains -/

section Chain

variable {ρ ς κ α : Type} (set : ρ → ς → Outcome ρ)

/-- A chain of calls, up to the first that does not come back with a record. -/
def chain : ρ → List ς → Outcome ρ
  | record, [] => .ok record
  | record, setter :: setters =>
      match set record setter with
      | .ok record => chain record setters
      | .err e => .err e
      | .panic r => .panic r
      | .diverge => .diverge

variable {set}

/-- A chain goes on from the record that its first call returns. -/
theorem chain_cons {record record' : ρ} {setter : ς} (h : set record setter = .ok record')
    (setters : List ς) : chain set record (setter :: setters) = chain set record' setters := by
  rw [chain, h]

/-- A chain panics with its first call. -/
theorem chain_cons_panic {record : ρ} {setter : ς} {r : Panic}
    (h : set record setter = .panic r) (setters : List ς) :
    chain set record (setter :: setters) = .panic r := by
  rw [chain, h]

variable [DecidableEq κ] (field : ς → κ) (value : ς → α) (Has : ρ → (κ → α) → Prop)

/-- A setter replaces the value of its field in every record, whatever the record has there. -/
def Replaces (set : ρ → ς → Outcome ρ) (setter : ς) : Prop :=
  ∀ record values, Has record values → ∃ record', set record setter = .ok record' ∧
    Has record' (Function.update values (field setter) (value setter))

variable {field value Has}

/-- Setters that replace the values of their fields make a chain that leaves the last of each. -/
theorem chain_succeeds {setters : List ς}
    (h : ∀ setter ∈ setters, Replaces field value Has set setter) {record : ρ} {values : κ → α}
    (hrecord : Has record values) : ∃ record', chain set record setters = .ok record' ∧
      Has record' fun k => last field value k setters (values k) := by
  induction setters generalizing record values with
  | nil => exact ⟨record, rfl, hrecord⟩
  | cons setter setters ih =>
      obtain ⟨hfirst, hrest⟩ := List.forall_mem_cons.mp h
      obtain ⟨next, hset, hnext⟩ := hfirst record values hrecord
      obtain ⟨record', hchain, hlast⟩ := ih hrest hnext
      refine ⟨record', (chain_cons hset setters).trans hchain, ?_⟩
      have hvalues : (fun k => last field value k (setter :: setters) (values k)) = fun k =>
          last field value k setters (Function.update values (field setter) (value setter) k) := by
        funext k
        rw [last_cons, Function.update_apply]
        simp only [eq_comm]
      rw [hvalues]
      exact hlast

/-- A setter panics on every record. -/
def Panics (P : Panic → Prop) (set : ρ → ς → Outcome ρ) (setter : ς) : Prop :=
  ∀ record, ∃ r, P r ∧ set record setter = .panic r

/-- A chain with a setter that panics does so, if the others replace the values of their fields. -/
theorem chain_panics {P : Panic → Prop} {setters : List ς}
    (h : ∀ setter ∈ setters, Replaces field value Has set setter ∨ Panics P set setter)
    (hpanics : ∃ setter ∈ setters, Panics P set setter) {record : ρ} {values : κ → α}
    (hrecord : Has record values) : ∃ r, P r ∧ chain set record setters = .panic r := by
  induction setters generalizing record values with
  | nil => simp at hpanics
  | cons setter setters ih =>
      obtain ⟨hfirst, hrest⟩ := List.forall_mem_cons.mp h
      rcases hfirst with hfirst | hfirst
      · obtain ⟨next, hset, hnext⟩ := hfirst record values hrecord
        have hlater : ∃ setter ∈ setters, Panics P set setter := by
          obtain ⟨other, hmem, hother⟩ := hpanics
          rcases List.mem_cons.mp hmem with rfl | hmem
          · obtain ⟨r, -, hpanic⟩ := hother record
            exact absurd (hset.symm.trans hpanic) (by simp)
          · exact ⟨other, hmem, hother⟩
        obtain ⟨r, hr, hchain⟩ := ih hrest hlater hnext
        exact ⟨r, hr, (chain_cons hset setters).trans hchain⟩
      · obtain ⟨r, hr, hset⟩ := hfirst record
        exact ⟨r, hr, chain_cons_panic hset setters⟩

end Chain

end Bws.Base.Setters
