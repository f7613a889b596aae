import Mathlib.Data.List.Basic
import Mathlib.Tactic.Linarith

/-!
# Lists that are read page by page

Each answer has some entries of a list and, if entries remain, the cursor of the next page. A
cursor encodes an offset. Whoever follows the cursors gets the list, provided that what is
encoded is decoded again.
-/

namespace CursorPages
variable {α C : Type*}

structure Page (α C : Type*) where
  entries : List α
  next : Option C

/-- The page of `xs` that begins at an offset. -/
def pageAt (xs : List α) (size : ℕ) (encode : ℕ → C) (offset : ℕ) : Page α C where
  entries := (xs.drop offset).take size
  next := if offset + size < xs.length then some (encode (offset + size)) else none

/-- The entries of page after page, for at most so many requests; none if there are more pages. -/
def collect (fetch : Option C → Page α C) : ℕ → Option C → Option (List α)
  | 0, _ => none
  | n + 1, cursor =>
      match (fetch cursor).next with
      | none => some (fetch cursor).entries
      | some c => (collect fetch n (some c)).map ((fetch cursor).entries ++ ·)

/-- A page is a part of the list in one piece, and its cursor is there exactly when entries remain
after a page that has some. -/
structure IsPageOf (xs : List α) (size : ℕ) (page : Page α C) : Prop where
  length_le : page.entries.length ≤ size
  slice : ∃ before after, xs = before ++ (page.entries ++ after) ∧
    (page.next.isSome ↔ page.entries ≠ [] ∧ after ≠ [])

variable {xs : List α} {size : ℕ} {encode : ℕ → C}

theorem isPageOf_pageAt (hsize : 0 < size) (offset : ℕ) :
    IsPageOf xs size (pageAt xs size encode offset) := by
  refine ⟨List.length_take_le _ _, xs.take offset, (xs.drop offset).drop size, ?_, ?_⟩
  · rw [pageAt, List.take_append_drop, List.take_append_drop]
  · have hentries : (pageAt xs size encode offset).entries ≠ [] ↔ offset < xs.length := by
      rw [pageAt, ← List.length_pos_iff, List.length_take, List.length_drop]
      omega
    have hafter : (xs.drop offset).drop size ≠ [] ↔ offset + size < xs.length := by
      rw [← List.length_pos_iff, List.length_drop, List.length_drop]
      omega
    rw [hentries, hafter, pageAt]
    split
    · exact iff_of_true rfl (by omega)
    · exact iff_of_false Bool.false_ne_true (by omega)

theorem collect_pageAt (decode : Option C → ℕ) {fetch : Option C → Page α C}
    (hfetch : ∀ cursor, fetch cursor = pageAt xs size encode (decode cursor))
    (hdecode : ∀ offset < xs.length, decode (some (encode offset)) = offset) (n : ℕ)
    (cursor : Option C) (hn : xs.length ≤ decode cursor + (n + 1) * size) :
    collect fetch (n + 1) cursor = some (xs.drop (decode cursor)) := by
  induction n generalizing cursor with
  | zero =>
    rw [Nat.zero_add, Nat.one_mul] at hn
    have hlast : (xs.drop (decode cursor)).length ≤ size := by
      rw [List.length_drop]
      omega
    rw [collect, hfetch, pageAt]
    simp only [if_neg (Nat.not_lt.mpr hn), List.take_of_length_le hlast]
  | succ n ih =>
    rw [collect, hfetch, pageAt]
    by_cases hmore : decode cursor + size < xs.length
    · have hnext := hdecode _ hmore
      have hrest := ih (some (encode (decode cursor + size))) (by rw [hnext]; linarith)
      simp only [if_pos hmore]
      rw [hrest, hnext, ← List.drop_drop, Option.map_some, List.take_append_drop]
    · have hlast : (xs.drop (decode cursor)).length ≤ size := by
        rw [List.length_drop]
        omega
      simp only [if_neg hmore, List.take_of_length_le hlast]

end CursorPages
