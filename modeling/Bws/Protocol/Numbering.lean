import Bws.Protocol.Derive
import Mathlib.Data.List.Nodup

/-!
# Numbering the variants

The discriminants the compiler gives the variants of an enum, and the numbers that the running
counter of the macros arrives at. The counter takes over integer literals and passes over every
other expression, so it stays with the compiler as long as those have the value that the counter
has there (`InStep`). `tags_right_iff` says so of the numbers that the macros find, and
`numbered_right_iff` when they find them at all.
-/

namespace Bws.Protocol

open Bws.Base

/-! ## Discriminants -/

/-- The discriminant the compiler gives a variant: the explicit value, or one more than the
variant before. -/
def Variant.rustDiscriminant (v : Variant) (next : Int) : Int :=
  match v.discriminant with
  | some (.litInt digits) => digits
  | some (.other value) => value
  | none => next

/-- The discriminants of the variants, the first of which has `next` when implicit. -/
def rustDiscriminants : List Variant → Int → List Int
  | [], _ => []
  | v :: vs, next => v.rustDiscriminant next :: rustDiscriminants vs (v.rustDiscriminant next + 1)

/-- The discriminants of an enum. -/
def Data.rustDiscriminants : Data → List Int
  | .enum variants => Protocol.rustDiscriminants variants 0
  | .struct _ | .union => []

/-- The discriminant is implicit, or an integer literal below `i32::MAX`. -/
def Variant.LiteralOrImplicit (v : Variant) : Prop :=
  match v.discriminant with
  | some (.litInt digits) => digits < i32Max
  | some (.other _) => False
  | none => True

/-- Every discriminant is implicit or a literal. -/
def Data.LiteralDiscriminants : Data → Prop
  | .enum variants => ∀ v ∈ variants, v.LiteralOrImplicit
  | .struct _ | .union => True

/-- An explicit discriminant other than a literal has the value that it would have when
implicit. -/
def Variant.InStep (v : Variant) (next : Int) : Prop :=
  match v.discriminant with
  | some (.other value) => value = next
  | some (.litInt _) | none => True

/-- Every discriminant other than a literal is in step, in an enum whose first variant would
have `next`. -/
def InStep : List Variant → Int → Prop
  | [], _ => True
  | v :: vs, next => v.InStep next ∧ InStep vs (v.rustDiscriminant next + 1)

/-- Discriminants that are implicit or literals are in step. -/
theorem in_step_of_literal {vs : List Variant} (h : ∀ v ∈ vs, v.LiteralOrImplicit) (next : Int) :
    InStep vs next := by
  induction vs generalizing next with
  | nil => trivial
  | cons v vs ih =>
      obtain ⟨hv, hvs⟩ := List.forall_mem_cons.mp h
      refine ⟨?_, ih hvs _⟩
      obtain ⟨_, _, discriminant⟩ := v
      cases discriminant with
      | none => trivial
      | some expr =>
          cases expr with
          | litInt digits => trivial
          | other value => exact hv.elim

/-! ## The counter -/

/-- The counter moves on to the next discriminant. -/
theorem increment_eq {next next' : Int32} (h : increment next = some next') :
    next'.toInt = next.toInt + 1 := by
  simp only [increment, Option.ite_none_right_eq_some, Option.some.injEq] at h
  obtain ⟨hlt, rfl⟩ := h
  have hlow := next.le_toInt
  unfold i32Max at hlt
  rw [Int32.toInt_add, Int32.toInt_one, Int.bmod_eq_of_le (by omega) (by omega)]

/-- The macro gives a variant its discriminant exactly when it is in step. -/
theorem tag_right_iff {v : Variant} {next tag : Int32} (h : v.tag next = some tag) :
    tag.toInt = v.rustDiscriminant next.toInt ↔ v.InStep next.toInt := by
  obtain ⟨_, _, discriminant⟩ := v
  cases discriminant with
  | none =>
      cases h
      exact iff_of_true rfl trivial
  | some expr =>
      cases expr with
      | litInt digits =>
          obtain ⟨hle, h⟩ := Option.ite_none_right_eq_some.mp h
          cases h
          exact iff_of_true (length_casts hle).1 trivial
      | other value =>
          -- the counter is passed on, whatever the value is
          cases h
          exact eq_comm

/-- A variant in step with a discriminant that fits is given it. -/
theorem tag_of_in_step {v : Variant} {next : Int32} (h : v.InStep next.toInt)
    (hle : v.rustDiscriminant next.toInt ≤ i32Max) : ∃ tag, v.tag next = some tag := by
  obtain ⟨_, _, discriminant⟩ := v
  cases discriminant with
  | none => exact ⟨next, rfl⟩
  | some expr =>
      cases expr with
      | litInt digits => exact ⟨_, if_pos (Int.ofNat_le.mp hle)⟩
      | other value => exact ⟨next, rfl⟩

/-- The numbering of an enum is that of its first variant and of the others. -/
theorem match_arms_cons_iff {v : Variant} {vs : List Variant} {next tag : Int32}
    {arms : Arms vs} :
    matchArms (v :: vs) next = some (tag, arms) ↔
      v.tag next = some tag ∧ ∃ next', increment tag = some next' ∧
        matchArms vs next' = some arms := by
  constructor
  · intro h
    obtain ⟨tag', htag, h⟩ := Option.bind_eq_some_iff.mp h
    obtain ⟨next', hnext, h⟩ := Option.bind_eq_some_iff.mp h
    obtain ⟨arms', harms, h⟩ := Option.bind_eq_some_iff.mp h
    cases h
    exact ⟨htag, next', hnext, harms⟩
  · rintro ⟨htag, next', hnext, harms⟩
    refine Option.bind_eq_some_iff.mpr ⟨tag, htag, ?_⟩
    refine Option.bind_eq_some_iff.mpr ⟨next', hnext, ?_⟩
    exact Option.bind_eq_some_iff.mpr ⟨arms, harms, rfl⟩

/-- The counter only moves on below `i32::MAX`. -/
theorem lt_of_increment {next next' : Int32} (h : increment next = some next') :
    next.toInt < i32Max := by
  simp only [increment, Option.ite_none_right_eq_some] at h
  exact h.1

/-- The numbers of the macro are the discriminants exactly when these are in step. -/
theorem tags_right_iff {vs : List Variant} {next : Int32} {arms : Arms vs}
    (h : matchArms vs next = some arms) :
    (Arms.tags vs arms).map Int32.toInt = rustDiscriminants vs next.toInt ↔
      InStep vs next.toInt := by
  induction vs generalizing next with
  | nil => exact iff_of_true rfl trivial
  | cons v vs ih =>
      obtain ⟨tag, arms⟩ := arms
      obtain ⟨htag, next', hnext, hrest⟩ := match_arms_cons_iff.mp h
      rw [Arms.tags, List.map_cons, rustDiscriminants, List.cons.injEq, InStep,
        tag_right_iff htag]
      refine and_congr_right fun hstep => ?_
      -- the counter has arrived where the compiler has
      have hcounter : next'.toInt = v.rustDiscriminant next.toInt + 1 := by
        rw [increment_eq hnext, (tag_right_iff htag).mpr hstep]
      rw [← hcounter]
      exact ih hrest

/-- The macro numbers the variants with their discriminants, and gets to the end, exactly when
these are in step and below `i32::MAX`. -/
theorem numbered_right_iff (vs : List Variant) (next : Int32) :
    (∃ arms, matchArms vs next = some arms ∧
      (Arms.tags vs arms).map Int32.toInt = rustDiscriminants vs next.toInt) ↔
      InStep vs next.toInt ∧ ∀ δ ∈ rustDiscriminants vs next.toInt, δ < i32Max := by
  induction vs generalizing next with
  | nil => exact iff_of_true ⟨(), rfl, rfl⟩ ⟨trivial, fun _ h => nomatch h⟩
  | cons v vs ih =>
      rw [rustDiscriminants, List.forall_mem_cons]
      constructor
      · rintro ⟨⟨tag, arms⟩, harms, htags⟩
        obtain ⟨htag, next', hnext, hrest⟩ := match_arms_cons_iff.mp harms
        obtain ⟨hhead, htail⟩ := List.cons.inj htags
        have hcounter : next'.toInt = v.rustDiscriminant next.toInt + 1 := by
          rw [increment_eq hnext, hhead]
        obtain ⟨hin, hbelow⟩ := (ih _).mp ⟨arms, hrest, hcounter ▸ htail⟩
        rw [hcounter] at hin hbelow
        exact ⟨⟨(tag_right_iff htag).mp hhead, hin⟩, hhead ▸ lt_of_increment hnext, hbelow⟩
      · rintro ⟨⟨hstep, hin⟩, hlt, hbelow⟩
        obtain ⟨tag, htag⟩ := tag_of_in_step hstep (Int.le_of_lt hlt)
        have hhead := (tag_right_iff htag).mpr hstep
        have hnext : increment tag = some (tag + 1) := if_pos (hhead ▸ hlt)
        have hcounter : (tag + 1).toInt = v.rustDiscriminant next.toInt + 1 := by
          rw [increment_eq hnext, hhead]
        rw [← hcounter] at hin hbelow
        obtain ⟨arms, hrest, htail⟩ := (ih _).mpr ⟨hin, hbelow⟩
        refine ⟨(tag, arms), match_arms_cons_iff.mpr ⟨htag, _, hnext, hrest⟩, ?_⟩
        rw [Arms.tags, List.map_cons, htail, hhead, hcounter]

/-! ## Literals -/

variable {vs : List Variant} {next : Int32}

/-- The macro numbers the variants with their discriminants. -/
theorem tags_eq_discriminants (hvs : ∀ v ∈ vs, v.LiteralOrImplicit) {arms : Arms vs}
    (h : matchArms vs next = some arms) :
    (Arms.tags vs arms).map Int32.toInt = rustDiscriminants vs next.toInt :=
  (tags_right_iff h).mpr (in_step_of_literal hvs _)

/-- The numbers are distinct when the discriminants are. -/
theorem tags_nodup (hvs : ∀ v ∈ vs, v.LiteralOrImplicit) {arms : Arms vs}
    (h : matchArms vs next = some arms) (hnodup : (rustDiscriminants vs next.toInt).Nodup) :
    (Arms.tags vs arms).Nodup :=
  List.Nodup.of_map _ (tags_eq_discriminants hvs h ▸ hnodup)

/-- A number is one of the macro's exactly when it is a discriminant. -/
theorem mem_tags_iff (hvs : ∀ v ∈ vs, v.LiteralOrImplicit) {arms : Arms vs}
    (h : matchArms vs next = some arms) (tag : Int32) :
    tag ∈ Arms.tags vs arms ↔ tag.toInt ∈ rustDiscriminants vs next.toInt := by
  rw [← tags_eq_discriminants hvs h,
    List.mem_map_of_injective fun _ _ => Int32.toInt_inj.mp]

/-- The numbering goes through when every discriminant is below `i32::MAX`. -/
theorem match_arms_of_lt (hvs : ∀ v ∈ vs, v.LiteralOrImplicit) (next : Int32)
    (h : ∀ δ ∈ rustDiscriminants vs next.toInt, δ < i32Max) :
    ∃ arms, matchArms vs next = some arms := by
  obtain ⟨arms, harms, -⟩ := (numbered_right_iff vs next).mpr ⟨in_step_of_literal hvs _, h⟩
  exact ⟨arms, harms⟩

end Bws.Protocol
