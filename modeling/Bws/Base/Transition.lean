import Mathlib.Logic.Basic

/-!
# Transition systems

A `System` has initial states and labelled steps. A `Run` from a state is the list of the
labels taken and of the states they lead to. `reachable_invariant` is the induction over
reachable states, and `states_iff_steps` the one over runs for a property that each step keeps
exactly when the step meets a condition: the property holds throughout a run exactly when all
of its steps meet the condition. `along_iff_steps` is the same rule for a property of a state
and of the labels on the way to it. `length_add_rank_le` bounds the runs whose steps lower a rank.
-/

namespace Bws.Base

/-- A step that is taken only under a condition. -/
theorem guarded_eq_some {S : Type} {p : Prop} [Decidable p] {s t : S} :
    (if p then some s else none) = some t ↔ p ∧ s = t :=
  Option.ite_none_right_eq_some.trans (and_congr_right' Option.some_inj)

/-- Initial states and labelled steps. -/
structure System (S L : Type) where
  Init : S → Prop
  Step : S → L → S → Prop

namespace System

variable {S L : Type} {sys : System S L}

/-- The states that steps lead to from an initial state. -/
inductive Reachable (sys : System S L) : S → Prop where
  | init {s : S} : sys.Init s → Reachable sys s
  | step {s t : S} (l : L) : Reachable sys s → sys.Step s l t → Reachable sys t

/-- What holds of the initial states and is kept by every step holds of every reachable state. -/
theorem reachable_invariant {Inv : S → Prop} (hinit : ∀ s, sys.Init s → Inv s)
    (hstep : ∀ s l t, Inv s → sys.Step s l t → Inv t) {s : S} (h : sys.Reachable s) :
    Inv s := by
  induction h with
  | init hs => exact hinit _ hs
  | step l _ hst ih => exact hstep _ l _ ih hst

/-- A run from `s`: the labels taken, each with the state it leads to. -/
def Run (sys : System S L) : S → List (L × S) → Prop
  | _, [] => True
  | s, (l, t) :: run => sys.Step s l t ∧ Run sys t run

/-- Every step of a run meets `Ok`, a condition on the state before it and its label. -/
def Steps (Ok : S → L → Prop) : S → List (L × S) → Prop
  | _, [] => True
  | s, (l, t) :: run => Ok s l ∧ Steps Ok t run

/-- `Steps` is decided step by step. -/
instance {Ok : S → L → Prop} [∀ s l, Decidable (Ok s l)] :
    (s : S) → (run : List (L × S)) → Decidable (Steps Ok s run)
  | _, [] => .isTrue trivial
  | s, (l, t) :: run =>
      haveI : Decidable (Steps Ok t run) := instDecidableSteps t run
      inferInstanceAs (Decidable (Ok s l ∧ Steps Ok t run))

/-- `P` holds of every state of a run from `s`. -/
def States (P : S → Prop) (s : S) (run : List (L × S)) : Prop :=
  P s ∧ ∀ step ∈ run, P step.2

/-- The state at the end of a run from `s`. -/
def final (s : S) : List (L × S) → S
  | [] => s
  | (_, t) :: run => final t run

/-- `P` holds of every state of a run from `s`, each with the labels taken on the way to it,
those in `past` before `s`. -/
def Along (P : List L → S → Prop) (past : List L) (s : S) : List (L × S) → Prop
  | [] => P past s
  | (l, t) :: run => P past s ∧ Along P (past ++ [l]) t run

/-- The states of a run from an initial state are reachable. -/
theorem run_reachable {s : S} {run : List (L × S)} (hs : sys.Reachable s)
    (hrun : sys.Run s run) : States sys.Reachable s run := by
  induction run generalizing s with
  | nil => exact ⟨hs, by simp⟩
  | cons step run ih =>
      obtain ⟨l, t⟩ := step
      obtain ⟨ht, hrest⟩ := ih (hs.step l hrun.1) hrun.2
      refine ⟨hs, fun x hx => ?_⟩
      rcases List.mem_cons.mp hx with rfl | hmem
      · exact ht
      · exact hrest x hmem

/-- The state at the end of a run is reachable. -/
theorem final_reachable {s : S} {run : List (L × S)} (hs : sys.Reachable s)
    (hrun : sys.Run s run) : sys.Reachable (final s run) := by
  induction run generalizing s with
  | nil => exact hs
  | cons step run ih => exact ih (hs.step _ hrun.1) hrun.2

/-- The run that takes these labels one after the other, as far as they can be taken. -/
def play (step : S → L → Option S) : S → List L → List (L × S)
  | _, [] => []
  | s, l :: labels =>
      match step s l with
      | some t => (l, t) :: play step t labels
      | none => []

/-- Playing labels is a run. -/
theorem play_run {step : S → L → Option S}
    (hstep : ∀ s l t, step s l = some t → sys.Step s l t) (s : S) (labels : List L) :
    sys.Run s (play step s labels) := by
  induction labels generalizing s with
  | nil => trivial
  | cons l labels ih =>
      rw [play]
      split
      · next t ht => exact ⟨hstep s l t ht, ih t⟩
      · trivial

/-- The steps of such a run are among the labels. -/
theorem play_steps {Ok : L → Prop} (step : S → L → Option S) (s : S) {labels : List L}
    (h : ∀ l ∈ labels, Ok l) : Steps (fun _ => Ok) s (play step s labels) := by
  induction labels generalizing s with
  | nil => trivial
  | cons l labels ih =>
      obtain ⟨hl, hlabels⟩ := List.forall_mem_cons.mp h
      rw [play]
      split
      · next t _ => exact ⟨hl, ih t hlabels⟩
      · trivial

/-- What every step that meets `Ok` keeps is kept by a run of such steps. -/
theorem final_of_steps {P : S → Prop} {Ok : S → L → Prop}
    (hstep : ∀ s l t, P s → Ok s l → sys.Step s l t → P t) {s : S} {run : List (L × S)}
    (hP : P s) (hrun : sys.Run s run) (hok : Steps Ok s run) : P (final s run) := by
  induction run generalizing s with
  | nil => exact hP
  | cons step run ih => exact ih (hstep _ _ _ hP hok.1 hrun.1) hrun.2 hok.2

/-- Steps that lower a rank are at most as many as the rank. -/
theorem length_add_rank_le {P : S → Prop} {Ok : S → L → Prop} {rank : S → Nat}
    (hstep : ∀ s l t, P s → Ok s l → sys.Step s l t → P t)
    (hrank : ∀ s l t, P s → Ok s l → sys.Step s l t → rank t < rank s) {s : S}
    {run : List (L × S)} (hP : P s) (hrun : sys.Run s run) (hok : Steps Ok s run) :
    run.length + rank (final s run) ≤ rank s := by
  induction run generalizing s with
  | nil => simp [final]
  | cons step run ih =>
      obtain ⟨l, t⟩ := step
      have hlt := hrank _ _ _ hP hok.1 hrun.1
      have hrest := ih (hstep _ _ _ hP hok.1 hrun.1) hrun.2 hok.2
      rw [List.length_cons, final]
      omega

/-- If from a reachable state with `P` a step leads to `P` exactly when it meets `Ok`, whatever
the labels on the way, then `P` holds along a run exactly when all of its steps meet `Ok`. -/
theorem along_iff_steps {P : List L → S → Prop} {Ok : S → L → Prop}
    (hstep : ∀ past s l t, sys.Reachable s → P past s → sys.Step s l t →
      (P (past ++ [l]) t ↔ Ok s l)) {past : List L} {s : S} {run : List (L × S)}
    (hs : sys.Reachable s) (hP : P past s) (hrun : sys.Run s run) :
    Along P past s run ↔ Steps Ok s run := by
  induction run generalizing past s with
  | nil => exact iff_of_true hP trivial
  | cons step run ih =>
      obtain ⟨l, t⟩ := step
      have hfirst := hstep past s l t hs hP hrun.1
      have ht := hs.step l hrun.1
      constructor
      · rintro ⟨-, hrest⟩
        have hPt : P (past ++ [l]) t := by
          cases run with
          | nil => exact hrest
          | cons _ _ => exact hrest.1
        exact ⟨hfirst.mp hPt, (ih ht hPt hrun.2).mp hrest⟩
      · rintro ⟨hok, hrest⟩
        exact ⟨hP, (ih ht (hfirst.mpr hok) hrun.2).mpr hrest⟩

/-- A property of states alone holds along a run when it holds throughout it. -/
theorem along_const_iff {P : S → Prop} {past : List L} {s : S} {run : List (L × S)} :
    Along (fun _ => P) past s run ↔ States P s run := by
  induction run generalizing past s with
  | nil => exact ⟨fun h => ⟨h, by simp⟩, fun h => h.1⟩
  | cons step run ih =>
      obtain ⟨l, t⟩ := step
      rw [Along, ih, States, States, List.forall_mem_cons]

/-- If from a reachable state with `P` a step leads to `P` exactly when it meets `Ok`, then `P`
holds throughout a run exactly when all of its steps meet `Ok`. -/
theorem states_iff_steps {P : S → Prop} {Ok : S → L → Prop}
    (hstep : ∀ s l t, sys.Reachable s → P s → sys.Step s l t → (P t ↔ Ok s l)) {s : S}
    {run : List (L × S)} (hs : sys.Reachable s) (hP : P s) (hrun : sys.Run s run) :
    States P s run ↔ Steps Ok s run := by
  have hpast : Along (fun _ => P) [] s run ↔ Steps Ok s run :=
    along_iff_steps (fun _ => hstep) hs hP hrun
  exact along_const_iff.symm.trans hpast

end System

end Bws.Base
