import Mathlib.Logic.Basic

/-!
# Procedures over a mutable state

A `Proc σ α` runs against a state of type `σ` and ends in an `Outcome`: a value, a
returned error, an unwinding panic, or no end at all. The state survives every outcome,
so what a failed operation has already consumed or written stays visible to its caller.

Read `bind_ok_iff` and `returns_bind_iff` first: the results about sequenced procedures
invert a run with the former, or split its safety with the latter.
-/

namespace Bws.Base

/-- The error kinds an input or output operation reports. -/
inductive ErrorKind where
  | unexpectedEof
  | invalidData
  | invalidInput
  | other
  deriving DecidableEq, Repr

/-- A returned error: its kind and its message. -/
structure Error where
  kind : ErrorKind
  message : String
  deriving DecidableEq, Repr

/-- The checks of the language runtime that unwind the running thread, and panics raised by
the program itself. -/
inductive Panic where
  | capacityOverflow
  | shiftOverflow
  | addOverflow
  | subtractOverflow
  | indexOutOfBounds
  | explicit (message : String)
  deriving DecidableEq, Repr

/-- How a run ends. `diverge` stands for a loop that has no last iteration. -/
inductive Outcome (α : Type) where
  | ok (value : α)
  | err (error : Error)
  | panic (reason : Panic)
  | diverge
  deriving DecidableEq, Repr

/-- The run comes back to its caller with a value or an error. -/
def Outcome.Returned {α : Type} : Outcome α → Prop
  | .ok _ | .err _ => True
  | .panic _ | .diverge => False

/-- `Outcome.Returned` is decided by the constructor. -/
instance {α : Type} : (outcome : Outcome α) → Decidable outcome.Returned
  | .ok _ | .err _ => .isTrue trivial
  | .panic _ | .diverge => .isFalse id

/-- A procedure: from a state to an outcome and the state it leaves behind. -/
@[ext] structure Proc (σ α : Type) where
  run : σ → Outcome α × σ

namespace Proc

variable {σ α β : Type}

/-- Return a value and leave the state alone. -/
protected def pure (a : α) : Proc σ α := ⟨fun s => (.ok a, s)⟩

/-- Run `p` and hand its value to `f`; anything but a value ends the run. -/
protected def bind (p : Proc σ α) (f : α → Proc σ β) : Proc σ β :=
  ⟨fun s =>
    match p.run s with
    | (.ok a, t) => (f a).run t
    | (.err e, t) => (.err e, t)
    | (.panic r, t) => (.panic r, t)
    | (.diverge, t) => (.diverge, t)⟩

/-- Procedures are sequenced with `Proc.bind`. -/
instance : Monad (Proc σ) where
  pure := Proc.pure
  bind := Proc.bind

/-- Return the error. -/
def fail (e : Error) : Proc σ α := ⟨fun s => (.err e, s)⟩

/-- Unwind. -/
def unwind (r : Panic) : Proc σ α := ⟨fun s => (.panic r, s)⟩

/-- Never come back. -/
def diverge : Proc σ α := ⟨fun s => (.diverge, s)⟩

/-- `loop { body }`: the body continues with a new loop state or breaks with a result. The
run diverges when it has not broken after `fuel` iterations. -/
def loop (body : β → Proc σ (β ⊕ α)) : Nat → β → Proc σ α
  | 0, _ => diverge
  | fuel + 1, b => do
      match ← body b with
      | .inl next => loop body fuel next
      | .inr result => pure result

/-- Run `p` and hand a returned error to the caller as a value. -/
def attempt (p : Proc σ α) : Proc σ (Except Error α) :=
  ⟨fun s =>
    match p.run s with
    | (.ok a, t) => (.ok (.ok a), t)
    | (.err e, t) => (.ok (.error e), t)
    | (.panic r, t) => (.panic r, t)
    | (.diverge, t) => (.diverge, t)⟩

/-- Run `p`, with `f e` in the place of a returned error `e`. -/
def mapErr (f : Error → Error) (p : Proc σ α) : Proc σ α :=
  ⟨fun s =>
    match p.run s with
    | (.ok a, t) => (.ok a, t)
    | (.err e, t) => (.err (f e), t)
    | (.panic r, t) => (.panic r, t)
    | (.diverge, t) => (.diverge, t)⟩

/-! ## One step of a run -/

@[simp] theorem run_pure (a : α) (s : σ) : (pure a : Proc σ α).run s = (.ok a, s) := rfl

@[simp] theorem run_fail (e : Error) (s : σ) : (fail e : Proc σ α).run s = (.err e, s) := rfl

@[simp] theorem run_unwind (r : Panic) (s : σ) :
    (unwind r : Proc σ α).run s = (.panic r, s) := rfl

@[simp] theorem run_diverge (s : σ) : (diverge : Proc σ α).run s = (.diverge, s) := rfl

/-- A sequence runs its second part on what the first part returns. -/
theorem run_bind (p : Proc σ α) (f : α → Proc σ β) (s : σ) :
    (p >>= f).run s =
      match p.run s with
      | (.ok a, t) => (f a).run t
      | (.err e, t) => (.err e, t)
      | (.panic r, t) => (.panic r, t)
      | (.diverge, t) => (.diverge, t) := rfl

/-- A value is handed on with the state that came with it. -/
theorem bind_of_ok {p : Proc σ α} {s t : σ} {a : α} (h : p.run s = (.ok a, t))
    (f : α → Proc σ β) : (p >>= f).run s = (f a).run t := by
  rw [run_bind, h]

/-- An error skips the rest. -/
theorem bind_of_err {p : Proc σ α} {s t : σ} {e : Error} (h : p.run s = (.err e, t))
    (f : α → Proc σ β) : (p >>= f).run s = (.err e, t) := by
  rw [run_bind, h]

/-- A panic skips the rest. -/
theorem bind_of_panic {p : Proc σ α} {s t : σ} {r : Panic} (h : p.run s = (.panic r, t))
    (f : α → Proc σ β) : (p >>= f).run s = (.panic r, t) := by
  rw [run_bind, h]

/-- A run without an end never reaches the rest. -/
theorem bind_of_diverge {p : Proc σ α} {s t : σ} (h : p.run s = (.diverge, t))
    (f : α → Proc σ β) : (p >>= f).run s = (.diverge, t) := by
  rw [run_bind, h]

/-- Without a value, a part ends the sequence. -/
theorem bind_of_none {p : Proc σ α} {s t : σ} {o : Outcome α} (h : p.run s = (o, t))
    (hnone : ∀ a, o ≠ .ok a) (f : α → Proc σ β) :
    ∃ o' : Outcome β, (p >>= f).run s = (o', t) ∧ (∀ b, o' ≠ .ok b) ∧
      (o' = .diverge ↔ o = .diverge) := by
  cases o with
  | ok a => exact absurd rfl (hnone a)
  | err e => exact ⟨.err e, bind_of_err h f, by simp, by simp⟩
  | panic r => exact ⟨.panic r, bind_of_panic h f, by simp, by simp⟩
  | diverge => exact ⟨.diverge, bind_of_diverge h f, by simp, by simp⟩

/-- A sequence returns a value exactly when both parts do. -/
theorem bind_ok_iff {p : Proc σ α} {f : α → Proc σ β} {s t : σ} {b : β} :
    (p >>= f).run s = (.ok b, t) ↔
      ∃ a u, p.run s = (.ok a, u) ∧ (f a).run u = (.ok b, t) := by
  constructor
  · intro h
    rcases hp : p.run s with ⟨_ | _ | _ | _, u⟩
    · exact ⟨_, u, rfl, (bind_of_ok hp f).symm.trans h⟩
    · simp [bind_of_err hp f] at h
    · simp [bind_of_panic hp f] at h
    · simp [bind_of_diverge hp f] at h
  · rintro ⟨a, u, hp, hf⟩
    rw [bind_of_ok hp, hf]

/-- Procedures satisfy the monad laws. -/
instance : LawfulMonad (Proc σ) := by
  refine LawfulMonad.mk' _ ?_ (fun _ _ => rfl) ?_
  · intro α p
    ext1
    funext s
    change (p >>= pure ∘ id).run s = p.run s
    rw [run_bind]
    rcases p.run s with ⟨_ | _ | _ | _, t⟩ <;> rfl
  · intro α β γ p f g
    ext1
    funext s
    rw [run_bind, run_bind, run_bind]
    rcases p.run s with ⟨_ | _ | _ | _, t⟩ <;> rfl

/-- A mapped run returns a value exactly when the run does. -/
theorem map_ok_iff {p : Proc σ α} {f : α → β} {s t : σ} {b : β} :
    (f <$> p).run s = (.ok b, t) ↔ ∃ a, p.run s = (.ok a, t) ∧ f a = b := by
  rw [map_eq_pure_bind, bind_ok_iff]
  constructor
  · rintro ⟨a, u, hp, hf⟩
    obtain ⟨rfl, rfl⟩ : f a = b ∧ u = t := by simpa using hf
    exact ⟨a, hp, rfl⟩
  · rintro ⟨a, hp, rfl⟩
    exact ⟨a, t, hp, rfl⟩

/-- A mapped run keeps its value's state. -/
theorem map_of_ok {p : Proc σ α} {s t : σ} {a : α} (h : p.run s = (.ok a, t)) (f : α → β) :
    (f <$> p).run s = (.ok (f a), t) :=
  map_ok_iff.mpr ⟨a, h, rfl⟩

/-- A mapped run keeps its error. -/
theorem map_of_err {p : Proc σ α} {s t : σ} {e : Error} (h : p.run s = (.err e, t))
    (f : α → β) : (f <$> p).run s = (.err e, t) := by
  rw [map_eq_pure_bind, bind_of_err h]

/-- A mapped run keeps its panic. -/
theorem map_of_panic {p : Proc σ α} {s t : σ} {r : Panic} (h : p.run s = (.panic r, t))
    (f : α → β) : (f <$> p).run s = (.panic r, t) := by
  rw [map_eq_pure_bind, bind_of_panic h]

/-- A mapped run is without an end where the run is. -/
theorem map_of_diverge {p : Proc σ α} {s t : σ} (h : p.run s = (.diverge, t)) (f : α → β) :
    (f <$> p).run s = (.diverge, t) := by
  rw [map_eq_pure_bind, bind_of_diverge h]

/-- A value is still a value when attempted. -/
theorem attempt_of_ok {p : Proc σ α} {s t : σ} {a : α} (h : p.run s = (.ok a, t)) :
    (attempt p).run s = (.ok (.ok a), t) := by
  simp only [attempt, h]

/-- An error is a value when attempted. -/
theorem attempt_of_err {p : Proc σ α} {s t : σ} {e : Error} (h : p.run s = (.err e, t)) :
    (attempt p).run s = (.ok (.error e), t) := by
  simp only [attempt, h]

/-- One iteration of a loop. -/
theorem loop_succ (body : β → Proc σ (β ⊕ α)) (fuel : Nat) (b : β) :
    loop body (fuel + 1) b = (body b >>= fun
      | .inl next => loop body fuel next
      | .inr result => pure result) := rfl

/-! ## Other errors -/

theorem map_err_fail (f : Error → Error) (e : Error) :
    mapErr f (fail e : Proc σ α) = fail (f e) := rfl

/-- Two parts that run in sequence with other errors run so as a whole. -/
theorem map_err_bind (f : Error → Error) (p : Proc σ α) (g : α → Proc σ β) :
    mapErr f (p >>= g) = mapErr f p >>= fun a => mapErr f (g a) := by
  ext1
  funext s
  simp only [run_bind, mapErr]
  rcases p.run s with ⟨_ | _ | _ | _, t⟩ <;> rfl

/-- Mapping the value leaves the errors alone. -/
theorem map_err_map (f : Error → Error) (p : Proc σ α) (g : α → β) :
    mapErr f (g <$> p) = g <$> mapErr f p := by
  rw [map_eq_pure_bind, map_eq_pure_bind, map_err_bind]
  rfl

/-- A loop with other errors. -/
theorem map_err_loop (f : Error → Error) (body : β → Proc σ (β ⊕ α)) (fuel : Nat) (b : β) :
    mapErr f (loop body fuel b) = loop (fun b => mapErr f (body b)) fuel b := by
  induction fuel generalizing b with
  | zero => rfl
  | succ fuel ih =>
      rw [loop_succ, loop_succ, map_err_bind]
      congr 1
      funext next
      cases next with
      | inl next => exact ih next
      | inr result => rfl

/-- Other errors do not change which runs end in a value. -/
theorem map_err_ok_iff {f : Error → Error} {p : Proc σ α} {s t : σ} {a : α} :
    (mapErr f p).run s = (.ok a, t) ↔ p.run s = (.ok a, t) := by
  rcases hp : p.run s with ⟨_ | _ | _ | _, u⟩ <;> simp [mapErr, hp]

/-! ## Runs that return -/

/-- From `s` the procedure returns a value or an error: it neither panics nor diverges. -/
def Returns (p : Proc σ α) (s : σ) : Prop := (p.run s).1.Returned

@[simp] theorem returns_pure (a : α) (s : σ) : Returns (pure a) s := trivial

/-- A run that ends in a value returns. -/
theorem returns_of_ok {p : Proc σ α} {s t : σ} {a : α} (h : p.run s = (.ok a, t)) :
    Returns p s := by
  simp [Returns, h, Outcome.Returned]

/-- Other errors do not change which runs return. -/
@[simp] theorem returns_map_err_iff {f : Error → Error} {p : Proc σ α} {s : σ} :
    Returns (mapErr f p) s ↔ Returns p s := by
  unfold Returns
  rcases hp : p.run s with ⟨_ | _ | _ | _, u⟩ <;> simp [mapErr, hp, Outcome.Returned]

/-- A run that ends in an error returns. -/
theorem returns_of_err {p : Proc σ α} {s t : σ} {e : Error} (h : p.run s = (.err e, t)) :
    Returns p s := by
  simp [Returns, h, Outcome.Returned]

/-- A sequence returns exactly when its first part does and every value of it is handed to a
part that does. -/
theorem returns_bind_iff {p : Proc σ α} {f : α → Proc σ β} {s : σ} :
    Returns (p >>= f) s ↔
      Returns p s ∧ ∀ a t, p.run s = (.ok a, t) → Returns (f a) t := by
  unfold Returns
  rcases hp : p.run s with ⟨_ | _ | _ | _, u⟩
  · rw [bind_of_ok hp]
    constructor
    · intro h
      refine ⟨trivial, ?_⟩
      rintro a t ⟨rfl, rfl⟩
      exact h
    · exact fun h => h.2 _ _ rfl
  · rw [bind_of_err hp]
    simp [Outcome.Returned]
  · rw [bind_of_panic hp]
    simp [Outcome.Returned]
  · rw [bind_of_diverge hp]
    simp [Outcome.Returned]

/-- Mapping the value changes nothing about returning. -/
@[simp] theorem returns_map_iff {p : Proc σ α} {f : α → β} {s : σ} :
    Returns (f <$> p) s ↔ Returns p s := by
  rw [map_eq_pure_bind, returns_bind_iff]
  simp

/-! ## Runs that end -/

/-- From `s` the procedure comes to an end: a value, an error or a panic. -/
def Ends (p : Proc σ α) (s : σ) : Prop := (p.run s).1 ≠ .diverge

/-- A run that returns comes to an end. -/
theorem Returns.ends {p : Proc σ α} {s : σ} (h : Returns p s) : Ends p s := by
  intro hrun
  rw [Returns, hrun] at h
  exact h

/-- A sequence ends when its first part does and every value of it is handed to a part that
does. -/
theorem Ends.bind {p : Proc σ α} {f : α → Proc σ β} {s : σ} (hp : Ends p s)
    (hf : ∀ a t, p.run s = (.ok a, t) → Ends (f a) t) : Ends (p >>= f) s := by
  unfold Ends at hp ⊢
  rcases hrun : p.run s with ⟨a | e | r | _, t⟩
  · rw [bind_of_ok hrun]
    exact hf a t hrun
  · simp [bind_of_err hrun]
  · simp [bind_of_panic hrun]
  · simp [hrun] at hp

/-- Mapping the value changes nothing about ending. -/
theorem ends_map_iff {p : Proc σ α} {f : α → β} {s : σ} : Ends (f <$> p) s ↔ Ends p s := by
  rw [Ends, Ends]
  rcases hrun : p.run s with ⟨a | e | r | _, t⟩
  · simp [map_of_ok hrun f]
  · simp [map_of_err hrun f]
  · simp [map_of_panic hrun f]
  · simp [map_of_diverge hrun f]

/-! ## Runs that unwind -/

/-- From `s` the procedure panics. -/
def Unwinds (p : Proc σ α) (s : σ) : Prop := ∃ reason, (p.run s).1 = .panic reason

/-- A run that returns does not unwind. -/
theorem Returns.not_unwinds {p : Proc σ α} {s : σ} (h : Returns p s) : ¬ Unwinds p s := by
  rintro ⟨reason, hrun⟩
  rw [Returns, hrun] at h
  exact h

/-- What neither returns nor runs forever unwinds. -/
theorem unwinds_iff_not_returns {p : Proc σ α} {s : σ} (hends : Ends p s) :
    Unwinds p s ↔ ¬ Returns p s := by
  refine ⟨fun h hreturns => hreturns.not_unwinds h, fun h => ?_⟩
  rcases hrun : p.run s with ⟨a | e | reason | _, t⟩
  · exact absurd (returns_of_ok hrun) h
  · exact absurd (returns_of_err hrun) h
  · exact ⟨reason, by rw [hrun]⟩
  · exact absurd (by rw [hrun]) hends

/-- What has returned a value does not decide on a panic any more. -/
theorem unwinds_of_ok {p : Proc σ α} {s t : σ} {a : α} (h : p.run s = (.ok a, t))
    (f : α → Proc σ β) : Unwinds (p >>= f) s ↔ Unwinds (f a) t := by
  rw [Unwinds, Unwinds, bind_of_ok h]

/-- A sequence unwinds in its first part, or in the one that the value is handed to. -/
theorem unwinds_bind_iff {p : Proc σ α} {f : α → Proc σ β} {s : σ} :
    Unwinds (p >>= f) s ↔ Unwinds p s ∨ ∃ a t, p.run s = (.ok a, t) ∧ Unwinds (f a) t := by
  unfold Unwinds
  rcases hrun : p.run s with ⟨a | e | reason | _, t⟩
  · refine (unwinds_of_ok hrun f).trans ⟨fun h => .inr ⟨a, t, rfl, h⟩, ?_⟩
    rintro (⟨_, h⟩ | ⟨a', t', heq, h⟩)
    · cases h
    · obtain ⟨ha, rfl⟩ := Prod.mk.inj heq
      obtain rfl := Outcome.ok.inj ha
      exact h
  · simp [bind_of_err hrun]
  · simp [bind_of_panic hrun]
  · simp [bind_of_diverge hrun]

/-! ## A part of the state -/

/-- Access to a part `σ` of a state `τ`. -/
structure Lens (τ σ : Type) where
  get : τ → σ
  set : τ → σ → τ
  get_set : ∀ t s, get (set t s) = s
  set_get : ∀ t, set t (get t) = t
  set_set : ∀ t s s', set (set t s) s' = set t s'

variable {τ : Type} (l : Lens τ σ)

/-- Run `p` on a part of the state. -/
def zoom (p : Proc σ α) : Proc τ α :=
  ⟨fun t => ((p.run (l.get t)).1, l.set t (p.run (l.get t)).2)⟩

theorem zoom_pure (a : α) : zoom l (pure a) = pure a := by
  ext1
  funext t
  simp [zoom, l.set_get]

theorem zoom_fail (e : Error) : zoom l (fail e : Proc σ α) = fail e := by
  ext1
  funext t
  simp [zoom, l.set_get, fail]

theorem zoom_unwind (r : Panic) : zoom l (unwind r : Proc σ α) = unwind r := by
  ext1
  funext t
  simp [zoom, l.set_get, unwind]

theorem zoom_diverge : zoom l (diverge : Proc σ α) = diverge := by
  ext1
  funext t
  simp [zoom, l.set_get, diverge]

/-- Two parts that run in sequence on a part of the state run there as a whole. -/
theorem zoom_bind (p : Proc σ α) (f : α → Proc σ β) :
    zoom l (p >>= f) = zoom l p >>= fun a => zoom l (f a) := by
  ext1
  funext t
  simp only [run_bind, zoom]
  rcases p.run (l.get t) with ⟨_ | _ | _ | _, s⟩ <;> simp [l.get_set, l.set_set]

/-- A loop on a part of the state. -/
theorem zoom_loop (body : β → Proc σ (β ⊕ α)) (fuel : Nat) (b : β) :
    zoom l (loop body fuel b) = loop (fun b => zoom l (body b)) fuel b := by
  induction fuel generalizing b with
  | zero => exact zoom_diverge l
  | succ fuel ih =>
      rw [loop_succ, loop_succ, zoom_bind]
      congr 1
      funext next
      cases next with
      | inl next => exact ih next
      | inr result => exact zoom_pure l result

/-- Mapping the value on a part of the state. -/
theorem zoom_map (p : Proc σ α) (f : α → β) : zoom l (f <$> p) = f <$> zoom l p := by
  simp only [map_eq_pure_bind, zoom_bind, zoom_pure]

/-- A run on a part of the state returns when it does on the part. -/
@[simp] theorem returns_zoom_iff {p : Proc σ α} {t : τ} :
    Returns (zoom l p) t ↔ Returns p (l.get t) := Iff.rfl

/-- The value and the state of a run on a part of the state. -/
theorem zoom_ok_iff {p : Proc σ α} {t u : τ} {a : α} :
    (zoom l p).run t = (.ok a, u) ↔
      ∃ s, p.run (l.get t) = (.ok a, s) ∧ u = l.set t s := by
  rcases hp : p.run (l.get t) with ⟨o, s⟩
  simp only [zoom, hp, Prod.mk.injEq]
  constructor
  · rintro ⟨rfl, rfl⟩
    exact ⟨s, ⟨rfl, rfl⟩, rfl⟩
  · rintro ⟨s', ⟨rfl, rfl⟩, rfl⟩
    exact ⟨rfl, rfl⟩

/-! ## States that look the same -/

/-- `p` does not tell states apart that look the same under `g`: from both it ends the same way
and leaves states that look the same. -/
def Respects {γ : Type} (g : σ → γ) (p : Proc σ α) : Prop :=
  ∀ s t, g s = g t → (p.run s).1 = (p.run t).1 ∧ g (p.run s).2 = g (p.run t).2

section Respects

variable {γ : Type} {g : σ → γ}

theorem respects_pure (a : α) : Respects g (pure a) := fun _ _ h => ⟨rfl, h⟩

theorem respects_fail (e : Error) : Respects g (fail e : Proc σ α) := fun _ _ h => ⟨rfl, h⟩

theorem respects_unwind (r : Panic) : Respects g (unwind r : Proc σ α) := fun _ _ h => ⟨rfl, h⟩

/-- A sequence tells no states apart when its parts do not. -/
theorem respects_bind {p : Proc σ α} {f : α → Proc σ β} (hp : Respects g p)
    (hf : ∀ a, Respects g (f a)) : Respects g (p >>= f) := by
  intro s t h
  obtain ⟨hout, hstate⟩ := hp s t h
  rw [run_bind, run_bind]
  rcases hs : p.run s with ⟨o, s'⟩
  rcases ht : p.run t with ⟨o', t'⟩
  rw [hs, ht] at hout hstate
  cases hout
  cases o with
  | ok a => exact hf a s' t' hstate
  | err e | panic r | diverge => exact ⟨rfl, hstate⟩

/-- Mapping the value tells no more states apart. -/
theorem respects_map {p : Proc σ α} (hp : Respects g p) (f : α → β) : Respects g (f <$> p) := by
  rw [map_eq_pure_bind]
  exact respects_bind hp fun a => respects_pure (f a)

/-- On a part of the state, states that look the same there are not told apart. -/
theorem respects_zoom {g : σ → σ} {p : Proc σ α} (hp : Respects g p) :
    Respects (fun t => l.set t (g (l.get t))) (zoom l p) := by
  intro s t h
  have hpart : g (l.get s) = g (l.get t) := by
    have hget := congrArg l.get h
    rwa [l.get_set, l.get_set] at hget
  obtain ⟨hout, hstate⟩ := hp _ _ hpart
  refine ⟨hout, ?_⟩
  have hset := congrArg (fun u => l.set u (g (p.run (l.get t)).2)) h
  simp only [l.set_set] at hset
  simpa only [zoom, l.get_set, l.set_set, hstate] using hset

end Respects

end Proc

end Bws.Base
