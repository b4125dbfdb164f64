import Mathlib.Data.List.Basic

/-!
# Pieces and separators

Lists that are put together with a separator between them. Splitting at the separator gives
back as many pieces as there were exactly when none of them has a separator of its own:
`length_split_intercalate_iff`. How long a list is can be told from the texts of its pieces:
`length_of_map_split`.
-/

namespace Bws.Base

variable {α : Type} [BEq α] {a : α}

/-- Splitting makes one piece more than there are separators. -/
theorem length_split_on (xs : List α) : (xs.splitOn a).length = xs.count a + 1 := by
  induction xs with
  | nil => simp
  | cons x xs ih =>
      rw [List.splitOn_cons_eq_if_modifyHead, List.count_cons]
      split <;> simp [ih]

omit [BEq α] in
/-- How long pieces that are put together are. -/
theorem length_intercalate {pieces : List (List α)} (h : pieces ≠ []) :
    ([a].intercalate pieces).length + 1 = pieces.flatten.length + pieces.length := by
  match pieces with
  | [] => exact absurd rfl h
  | [piece] => simp
  | piece :: next :: rest =>
      have hrest := length_intercalate (List.cons_ne_nil next rest)
      rw [List.intercalate_cons_cons, List.length_append, List.length_append,
        List.length_singleton, List.flatten_cons, List.length_append, List.length_cons]
      omega

variable [LawfulBEq α]

/-- The separators of pieces that are put together: those within and those between them. -/
theorem count_intercalate {pieces : List (List α)} (h : pieces ≠ []) :
    ([a].intercalate pieces).count a + 1 = pieces.flatten.count a + pieces.length := by
  match pieces with
  | [] => exact absurd rfl h
  | [piece] => simp
  | piece :: next :: rest =>
      have hrest := count_intercalate (List.cons_ne_nil next rest)
      rw [List.intercalate_cons_cons, List.count_append, List.count_append,
        List.count_singleton_self, List.flatten_cons, List.count_append, List.length_cons]
      omega

/-- As many pieces come back as were put together exactly when none has a separator in it. -/
theorem length_split_intercalate_iff {pieces : List (List α)} (h : pieces ≠ []) :
    (([a].intercalate pieces).splitOn a).length = pieces.length ↔
      ∀ piece ∈ pieces, a ∉ piece := by
  have hnone : (∀ piece ∈ pieces, a ∉ piece) ↔ pieces.flatten.count a = 0 := by
    rw [List.count_eq_zero, List.mem_flatten]
    exact ⟨fun hall ⟨piece, hmem, ha⟩ => hall piece hmem ha,
      fun hnone piece hmem ha => hnone ⟨piece, hmem, ha⟩⟩
  rw [hnone, length_split_on, count_intercalate h]
  omega

/-- Texts that are put together piece by piece are decoded from the split exactly when none of
their pieces has a separator in it. -/
theorem map_split_intercalate_iff {τ : Type} {encode : τ → List α} {decode : List α → τ}
    (hdecode : ∀ text, decode (encode text) = text) {texts : List τ} (h : texts ≠ []) :
    (([a].intercalate (texts.map encode)).splitOn a).map decode = texts ↔
      ∀ text ∈ texts, a ∉ encode text := by
  have hne : texts.map encode ≠ [] := by simpa using h
  rw [← List.forall_mem_map (P := fun piece => a ∉ piece)]
  constructor
  · intro heq
    refine (length_split_intercalate_iff hne).mp ?_
    have hlength := congrArg List.length heq
    rwa [List.length_map, ← List.length_map encode] at hlength
  · intro hnone
    rw [List.splitOn_intercalate _ hnone hne, List.map_map]
    exact (List.map_congr_left fun text _ => hdecode text).trans (List.map_id _)

/-- Where decoding keeps the length of every piece, a list is as long as the texts of its pieces
put together. -/
theorem length_of_map_split {τ : Type} {encode : τ → List α} {decode : List α → τ}
    (hlength : ∀ piece, (encode (decode piece)).length = piece.length) {xs : List α}
    {texts : List τ} (h : (xs.splitOn a).map decode = texts) :
    ([a].intercalate (texts.map encode)).length = xs.length := by
  have hne : xs.splitOn a ≠ [] := List.splitOn_ne_nil a xs
  have hpieces : (texts.map encode).map List.length = (xs.splitOn a).map List.length := by
    rw [← h, List.map_map, List.map_map]
    exact List.map_congr_left fun piece _ => hlength piece
  have hcount : (texts.map encode).length = (xs.splitOn a).length := by
    rw [← h, List.length_map, List.length_map]
  have htexts := length_intercalate (a := a) (List.ne_nil_of_length_pos
    (hcount ▸ List.length_pos_of_ne_nil hne))
  have hxs := length_intercalate (a := a) hne
  rw [List.intercalate_splitOn] at hxs
  rw [List.length_flatten, hpieces, ← List.length_flatten, hcount] at htexts
  exact Nat.succ.inj (htexts.trans hxs.symm)

end Bws.Base
