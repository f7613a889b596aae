import Mathlib.Data.List.TakeWhile

/-!
# Lines of a text

A text that is read line by line, or written so. The last line need not be ended.
-/

namespace TextLines

variable {s line rest : List Char}

def lines : List Char → List (List Char)
  | [] => []
  | c :: s =>
      if c = '\n' then [] :: lines s
      else
        match lines s with
        | [] => [[c]]
        | line :: rest => (c :: line) :: rest

/-- `std::getline`: the first line, without its end, and what follows; nothing at the end of the
text. -/
def getline (s : List Char) : Option (List Char × List Char) :=
  if s = [] then none else some (s.takeWhile (· ≠ '\n'), (s.dropWhile (· ≠ '\n')).tail)

@[simp] theorem lines_nil : lines [] = [] := rfl

@[simp] theorem lines_newline (s : List Char) : lines ('\n' :: s) = [] :: lines s := rfl

theorem lines_of_notMem (h : '\n' ∉ line) (hne : line ≠ []) : lines line = [line] := by
  induction line with
  | nil => exact absurd rfl hne
  | cons c line ih =>
    obtain ⟨hc, hline⟩ := not_or.mp (mt List.mem_cons.mpr h)
    rw [lines, if_neg (Ne.symm hc)]
    cases line with
    | nil => rfl
    | cons d line => rw [ih hline (List.cons_ne_nil d line)]

theorem lines_append (h : '\n' ∉ line) (s : List Char) :
    lines (line ++ '\n' :: s) = line :: lines s := by
  induction line with
  | nil => rfl
  | cons c line ih =>
    obtain ⟨hc, hline⟩ := not_or.mp (mt List.mem_cons.mpr h)
    rw [List.cons_append, lines, if_neg (Ne.symm hc), ih hline]

theorem lines_of_getline (h : getline s = some (line, rest)) : lines s = line :: lines rest := by
  unfold getline at h
  split at h
  · cases h
  · rename_i hne
    obtain ⟨rfl, rfl⟩ := Prod.mk.inj (Option.some.inj h)
    have hfirst : '\n' ∉ s.takeWhile (· ≠ '\n') := fun hmem => by
      simpa using List.mem_takeWhile_imp hmem
    have hall : s.takeWhile (· ≠ '\n') ++ s.dropWhile (· ≠ '\n') = s :=
      List.takeWhile_append_dropWhile
    cases hrest : s.dropWhile (· ≠ '\n') with
    | nil =>
      rw [hrest, List.append_nil] at hall
      rw [hall] at hfirst ⊢
      exact lines_of_notMem hfirst hne
    | cons c more =>
      have hc := List.head?_dropWhile_not (fun c : Char => decide (c ≠ '\n')) s
      rw [hrest] at hc hall
      obtain rfl : c = '\n' := by simpa using hc
      exact (congrArg lines hall.symm).trans (lines_append hfirst more)

theorem lines_flatMap {texts : List (List Char)} (h : ∀ text ∈ texts, '\n' ∉ text) :
    lines (texts.flatMap (· ++ ['\n'])) = texts := by
  induction texts with
  | nil => rfl
  | cons text texts ih =>
    obtain ⟨htext, htexts⟩ := List.forall_mem_cons.mp h
    rw [List.flatMap_cons, List.append_assoc, List.singleton_append, lines_append htext,
      ih htexts]

end TextLines
