import Bws.Base.Transition
import Bws.GracefulExit.Initiate

/-!
# Systems that wait for a shutdown

A system in which futures of the notifier wait for the shutdown, whatever else it does. Each of
its steps runs a part of a call of `exit`, or begins a wait with a future of its own, or does
neither. `Waiting.woken_iff` says in which runs of such a system every call of `exit` wakes
everybody who waits, before and after it.
-/

namespace Bws.GracefulExit

open Bws.Base Bws.Base.Notify

variable {N F : Type} [Notify N F]

/-- What a step does to the shared part and to the futures that wait. -/
inductive WaitStep (begins : Prop) (i : Initiate N) (waits : F → Prop) (j : Initiate N)
    (waits' : F → Prop) : Prop where
  | advances (hbegins : ¬ begins) (hadv : i.Advances j) (hsub : ∀ f, waits' f → waits f)
  | begins (hbegins : begins) (hinitiate : j = i)
      (hnew : completed i.notify (notified i.notify) = false → waits' (notified i.notify))
      (hsub : ∀ f, waits' f → waits f ∨ f = notified i.notify)
  | keeps (hbegins : ¬ begins) (hinitiate : j = i) (hsub : ∀ f, waits' f → waits f)

/-- The futures that wait have been created. -/
def AllCreated (i : Initiate N) (waits : F → Prop) : Prop :=
  ∀ f, waits f → Created i.notify f

/-- Once a call of `exit` has completed, the futures that wait are complete. -/
def AllWoken (i : Initiate N) (waits : F → Prop) : Prop :=
  i.Exited → ∀ f, waits f → completed i.notify f = true

/-- The futures that wait are complete only if a call of `exit` has completed. -/
def OnlyExit (i : Initiate N) (waits : F → Prop) : Prop :=
  ∀ f, waits f → completed i.notify f = true → i.Exited

namespace WaitStep

variable {begins : Prop} {i j : Initiate N} {waits waits' : F → Prop}

/-- The cell is set before a call of `exit` moves on. -/
theorem cell_set (h : WaitStep begins i waits j waits') (hset : i.CellSet) : j.CellSet := by
  cases h with
  | advances _ hadv _ => exact Initiate.cell_set_advances hset hadv
  | begins _ hinitiate _ _ | keeps _ hinitiate _ => rwa [hinitiate]

/-- The futures that wait after a step have been created. -/
theorem created (h : WaitStep begins i waits j waits') (hcreated : AllCreated i waits) :
    AllCreated j waits' := by
  intro f hf
  cases h with
  | advances _ hadv hsub => exact Initiate.created_advances hadv (hcreated f (hsub f hf))
  | begins _ hinitiate _ hsub =>
      rw [hinitiate]
      rcases hsub f hf with hold | rfl
      · exact hcreated f hold
      · exact .now i.notify
  | keeps _ hinitiate hsub =>
      rw [hinitiate]
      exact hcreated f (hsub f hf)

/-- A step keeps everybody woken exactly when it does not begin a wait after a call of `exit`
has completed. -/
theorem woken_iff (hnotify : Documented N) (h : WaitStep begins i waits j waits')
    (hcreated : AllCreated i waits) (hwoken : AllWoken i waits) :
    AllWoken j waits' ↔ (begins → ¬ i.Exited) := by
  cases h with
  | advances hbegins hadv hsub =>
      refine iff_of_true (fun hexited f hf => ?_) (absurd · hbegins)
      have hold := hsub f hf
      exact Initiate.completed_advances hnotify hadv (hcreated f hold) (hwoken · f hold) hexited
  | begins hbegins hinitiate hnew hsub =>
      -- the future that begins to wait has no permit waiting for it
      have hfresh := hnotify.no_permit i.notify
      rw [hinitiate]
      constructor
      · intro hall _ hexited
        exact absurd (hall hexited _ (hnew hfresh)) (by simp [hfresh])
      · exact fun hin hexited => absurd hexited (hin hbegins)
  | keeps hbegins hinitiate hsub =>
      rw [hinitiate]
      exact iff_of_true (fun hexited f hf => hwoken hexited f (hsub f hf)) (absurd · hbegins)

/-- No step completes a future that waits, but the end of a call of `exit`. -/
theorem only_exit (hnotify : Documented N) (h : WaitStep begins i waits j waits')
    (honly : OnlyExit i waits) : OnlyExit j waits' := by
  intro f hf hcompleted
  cases h with
  | advances _ hadv hsub =>
      rcases Initiate.notify_advances hadv with ⟨hsame, hex⟩ | hexited
      · exact hex.mpr (honly f (hsub f hf) (by rwa [← hsame]))
      · exact hexited
  | begins _ hinitiate _ hsub =>
      rw [hinitiate] at hcompleted ⊢
      rcases hsub f hf with hold | rfl
      · exact honly f hold hcompleted
      · simp [hnotify.no_permit] at hcompleted
  | keeps _ hinitiate hsub =>
      rw [hinitiate] at hcompleted ⊢
      exact honly f (hsub f hf) hcompleted

/-- A call of `exit` that has completed stays so. -/
theorem exited (h : WaitStep begins i waits j waits') (hexited : i.Exited) : j.Exited := by
  cases h with
  | advances _ hadv _ => exact Initiate.exited_advances hadv hexited
  | begins _ hinitiate _ _ | keeps _ hinitiate _ => rwa [hinitiate]

end WaitStep

/-- A system that waits for a shutdown: what it shares with the calls of `exit`, which futures
wait in a state, and which steps begin a wait. -/
structure Waiting {S L : Type} (sys : System S L) (N F : Type) [Notify N F] where
  initiate : S → Initiate N
  waits : S → F → Prop
  begins : S → L → Prop
  init : ∀ s, sys.Init s → initiate s = .new ∧ ∀ f, ¬ waits s f
  step : ∀ s l t, sys.Step s l t →
    WaitStep (begins s l) (initiate s) (waits s) (initiate t) (waits t)

namespace Waiting

variable {S L : Type} {sys : System S L} (w : Waiting sys N F) {s : S}

/-- What holds in every reachable state: a call of `exit` that has come past its first statement
has set the cell, and the futures that wait have been created. -/
structure Inv (s : S) : Prop where
  cell_set : (w.initiate s).CellSet
  created : AllCreated (w.initiate s) (w.waits s)

/-- The invariant holds in every reachable state. -/
theorem inv (h : sys.Reachable s) : w.Inv s := by
  refine System.reachable_invariant (fun s hs => ?_) (fun s l t hinv hstep => ?_) h
  · obtain ⟨hnew, hnone⟩ := w.init s hs
    refine ⟨?_, fun f hf => absurd hf (hnone f)⟩
    rw [hnew]
    exact fun c hc => absurd hc List.not_mem_nil
  · have hwait := w.step s l t hstep
    exact ⟨hwait.cell_set hinv.cell_set, hwait.created hinv.created⟩

/-- No future that waits is told of a shutdown without a call of `exit` that has completed. -/
theorem only_exit (hnotify : Documented N) (h : sys.Reachable s) :
    OnlyExit (w.initiate s) (w.waits s) :=
  System.reachable_invariant (fun s hs f hf => absurd hf ((w.init s hs).2 f))
    (fun s l t honly hstep => (w.step s l t hstep).only_exit hnotify honly) h

/-- No future is left waiting in a run exactly when none of its steps begins a wait after a
call of `exit` has completed. -/
theorem woken_iff (hnotify : Documented N) (hs : sys.Init s) {run : List (L × S)}
    (hrun : sys.Run s run) :
    System.States (fun t => AllWoken (w.initiate t) (w.waits t)) s run ↔
      System.Steps (fun t l => w.begins t l → ¬ (w.initiate t).Exited) s run := by
  refine System.states_iff_steps (fun s l t hreach hwoken hstep => ?_) (.init hs) ?_ hrun
  · exact (w.step s l t hstep).woken_iff hnotify (w.inv hreach).created hwoken
  · exact fun _ f hf => absurd hf ((w.init s hs).2 f)

end Waiting

end Bws.GracefulExit
