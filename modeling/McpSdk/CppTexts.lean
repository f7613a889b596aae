import McpSdk.CppStandardLibrary
import Mathlib.Data.List.Induction
import Mathlib.Data.List.TakeWhile

/-!
# Texts with numbers in them

What the string functions of the standard library give on texts that are put together from known
parts, and which texts they read as which number.
-/

namespace CppStandardLibrary

section Search

theorem containsText_cons {c : Char} {s t : Str} :
    containsText (c :: s) t ↔ t <+: c :: s ∨ containsText s t := by
  simp [containsText]

theorem containsText_append {plain s t : Str} {c : Char} (h : c ∉ plain) :
    containsText (plain ++ s) (c :: t) ↔ containsText s (c :: t) := by
  induction plain with
  | nil => rfl
  | cons d plain ih =>
    have hplain : c ∉ plain := fun hc => h (.tail _ hc)
    rw [List.cons_append, containsText_cons, ih hplain]
    refine or_iff_right (fun hprefix => ?_)
    exact h ((List.cons_prefix_cons.mp hprefix).1 ▸ .head _)

end Search

section Parts

theorem findIdx?_eq_some_iff {s : Str} {c : Char} {i : ℕ} :
    s.findIdx? (· == c) = some i ↔
      ∃ text rest, s = text ++ c :: rest ∧ c ∉ text ∧ i = text.length := by
  induction s generalizing i with
  | nil => simp
  | cons d s ih =>
    by_cases hd : d = c
    · subst hd
      simp only [List.findIdx?_cons, beq_self_eq_true, if_true, Option.some.injEq]
      constructor
      · rintro rfl
        exact ⟨[], s, rfl, List.not_mem_nil, rfl⟩
      · rintro ⟨text, rest, hs, hc, rfl⟩
        cases text with
        | nil => rfl
        | cons e text =>
          obtain ⟨rfl, -⟩ := List.cons.inj hs
          exact absurd (List.mem_cons_self ..) hc
    · simp only [List.findIdx?_cons, beq_iff_eq, hd, if_false, Option.map_eq_some_iff, ih]
      constructor
      · rintro ⟨k, ⟨text, rest, rfl, hc, rfl⟩, rfl⟩
        exact ⟨d :: text, rest, rfl, by simp [hc, Ne.symm hd], rfl⟩
      · rintro ⟨text, rest, hs, hc, rfl⟩
        cases text with
        | nil => exact absurd (List.cons.inj hs).1 hd
        | cons e text =>
          obtain ⟨rfl, rfl⟩ := List.cons.inj hs
          exact ⟨text.length, ⟨text, rest, rfl, fun h => hc (.tail _ h), rfl⟩, rfl⟩

theorem find_append (pre : Str) {s : Str} {c : Char} {k : ℕ} :
    find (pre ++ s) c pre.length = some k ↔
      ∃ text rest, s = text ++ c :: rest ∧ c ∉ text ∧ k = pre.length + text.length := by
  rw [find, List.drop_left, Option.map_eq_some_iff]
  constructor
  · rintro ⟨i, hi, rfl⟩
    obtain ⟨text, rest, hs, hc, rfl⟩ := findIdx?_eq_some_iff.mp hi
    exact ⟨text, rest, hs, hc, Nat.add_comm ..⟩
  · rintro ⟨text, rest, hs, hc, rfl⟩
    exact ⟨text.length, findIdx?_eq_some_iff.mpr ⟨text, rest, hs, hc, rfl⟩, Nat.add_comm ..⟩

theorem substr_append (pre text s : Str) :
    substr (pre ++ (text ++ s)) pre.length text.length = text := by
  rw [substr, List.drop_left, List.take_left]

/-- Two texts with a mark after a part without it agree in both parts. -/
theorem append_cons_inj {α : Type*} {a : α} {s s' t t' : List α} (hs : a ∉ s) (hs' : a ∉ s')
    (h : s ++ a :: t = s' ++ a :: t') : s = s' ∧ t = t' := by
  induction s generalizing s' with
  | nil =>
    cases s' with
    | nil => exact ⟨rfl, (List.cons.inj h).2⟩
    | cons b s' => exact absurd (List.mem_cons.mpr (.inl (List.cons.inj h).1)) hs'
  | cons b s ih =>
    cases s' with
    | nil => exact absurd (List.mem_cons.mpr (.inl (List.cons.inj h).1.symm)) hs
    | cons b' s' =>
      obtain ⟨rfl, htail⟩ := List.cons.inj h
      obtain ⟨rfl, rfl⟩ := ih (fun hm => hs (.tail _ hm)) (fun hm => hs' (.tail _ hm)) htail
      exact ⟨rfl, rfl⟩

end Parts

section Numbers

theorem toStr_injective : Function.Injective toStr := fun a b h => by
  rw [← decimalValue_toStr a, h, decimalValue_toStr]

/-- A number that begins with a digit has no blanks and no sign to skip. -/
theorem stoul_of_digits {s : Str} (hne : s ≠ []) (hdigits : ∀ c ∈ s, c.isDigit)
    (h : decimalValue s < 2 ^ 64) : stoul s = some (decimalValue s) := by
  cases s with
  | nil => exact absurd rfl hne
  | cons d ds =>
    have hd : d.isDigit := hdigits d (List.mem_cons_self ..)
    have hother : ∀ c : Char, c.isDigit = false → d ≠ c := by
      rintro c hc rfl
      cases hd.symm.trans hc
    have hblank : isSpace d = false := by
      simp [isSpace, hother]
    have hskip : (d :: ds).dropWhile isSpace = d :: ds :=
      List.dropWhile_cons_of_neg (by simp [hblank])
    have htake : (d :: ds).takeWhile Char.isDigit = d :: ds :=
      List.takeWhile_eq_self_iff.mpr hdigits
    simp only [stoul, hskip]
    split
    · rename_i u hu
      exact absurd (List.cons.inj hu).1 (hother _ rfl)
    · rename_i u hu
      exact absurd (List.cons.inj hu).1 (hother _ rfl)
    · simp only [htake, if_neg (List.cons_ne_nil d ds), if_neg (not_le.mpr h),
        Bool.false_eq_true, if_false]

theorem stoul_toStr {j : ℕ} (h : j < 2 ^ 64) : stoul (toStr j) = some j := by
  rw [stoul_of_digits (toStr_ne_nil j) (fun c hc => isDigit_of_mem_toStr hc)
    (by rwa [decimalValue_toStr]), decimalValue_toStr]

theorem digitChar_toNat {c : Char} (h : c.isDigit) :
    c.toNat - '0'.toNat < 10 ∧ Nat.digitChar (c.toNat - '0'.toNat) = c := by
  have hdigit : ∀ d < 10, Nat.digitChar d = Char.ofNat (48 + d) := by decide
  obtain ⟨hlow, hhigh⟩ : 48 ≤ c.toNat ∧ c.toNat ≤ 57 := by
    simpa [Char.isDigit, UInt32.le_iff_toNat_le] using h
  have hlt : c.toNat - '0'.toNat < 10 := by
    have hzero : '0'.toNat = 48 := rfl
    omega
  have hsum : 48 + (c.toNat - '0'.toNat) = c.toNat := Nat.add_sub_cancel' hlow
  refine ⟨hlt, ?_⟩
  rw [hdigit _ hlt, hsum, Char.ofNat_toNat]

/-- A number without a leading zero is the text of its value. -/
theorem toStr_decimalValue {s : Str} (hne : s ≠ []) (hdigits : ∀ c ∈ s, c.isDigit)
    (hzero : s.length = 1 ∨ s.head? ≠ some '0') : toStr (decimalValue s) = s := by
  induction s using List.reverseRecOn with
  | nil => exact absurd rfl hne
  | append_singleton s c ih =>
    obtain ⟨hlt, hchar⟩ := digitChar_toNat (hdigits c (by simp))
    have hvalue : decimalValue (s ++ [c]) = 10 * decimalValue s + (c.toNat - '0'.toNat) := by
      simp [decimalValue]
    rw [hvalue]
    cases s with
    | nil =>
      have hnil : 10 * decimalValue [] + (c.toNat - '0'.toNat) = c.toNat - '0'.toNat :=
        Nat.zero_add _
      rw [hnil, toStr, Nat.toDigits_of_lt_base hlt, hchar]
      rfl
    | cons d s =>
      have hhead : d ≠ '0' := by simpa using hzero
      have hinit : toStr (decimalValue (d :: s)) = d :: s :=
        ih (List.cons_ne_nil _ _) (fun e he => hdigits e (List.mem_append_left _ he))
          (.inr (by simpa using hhead))
      have hpos : 0 < decimalValue (d :: s) := by
        refine Nat.pos_of_ne_zero (fun hnone => ?_)
        rw [hnone] at hinit
        exact hhead (List.cons.inj hinit).1.symm
      rw [toStr, ← Nat.toDigits_append_toDigits (by decide) hpos hlt, Nat.toDigits_of_lt_base hlt,
        hchar]
      exact congrArg (· ++ [c]) hinit

/-- No number but 0 begins with a zero. -/
theorem head?_toStr {n : ℕ} (h : 0 < n) : (toStr n).head? ≠ some '0' := by
  induction n using Nat.strongRecOn with
  | ind n ih =>
    unfold toStr
    by_cases hlt : n < 10
    · rw [Nat.toDigits_of_lt_base hlt, List.head?_cons]
      intro hzero
      exact Nat.ne_of_gt h (Nat.digitChar_eq_zero.mp (Option.some.inj hzero))
    · have hpos : 0 < n / 10 := Nat.div_pos (not_lt.mp hlt) (by decide)
      have hsmaller : n / 10 < n := Nat.div_lt_self h (by decide)
      rw [Nat.toDigits_of_base_le (by decide) (not_lt.mp hlt),
        List.head?_append_of_ne_nil _ Nat.toDigits_ne_nil]
      exact ih (n / 10) hsmaller hpos

theorem toStr_canonical (n : ℕ) : (toStr n).length = 1 ∨ (toStr n).head? ≠ some '0' := by
  rcases Nat.eq_zero_or_pos n with rfl | h
  · exact .inl rfl
  · exact .inr (head?_toStr h)

theorem takeWhile_isDigit_append {digits rest : Str} (hdigits : ∀ c ∈ digits, c.isDigit)
    (hrest : ∀ c ∈ rest.head?, ¬c.isDigit) : (digits ++ rest).takeWhile Char.isDigit = digits := by
  rw [List.takeWhile_append_of_pos hdigits]
  cases rest with
  | nil => exact List.append_nil digits
  | cons c rest =>
    rw [List.takeWhile_cons_of_neg (hrest c rfl), List.append_nil]

/-- The number that a sign and digits stand for. -/
def signed (sign digits : Str) : Int :=
  if sign = ['-'] then -decimalValue digits else decimalValue digits

/-- Blanks, a sign or none, and what follows. -/
def Signed (blanks sign u : Str) : Prop :=
  (∀ c ∈ blanks, isSpace c) ∧
    (sign = ['+'] ∨ sign = ['-'] ∨ sign = [] ∧ ∀ c ∈ u.head?, ¬isSpace c ∧ c ≠ '+' ∧ c ≠ '-')

theorem exists_signed (t : Str) : ∃ blanks sign u, t = blanks ++ (sign ++ u) ∧
    Signed blanks sign u := by
  have hblanks : ∀ c ∈ t.takeWhile isSpace, isSpace c := fun c hc => List.mem_takeWhile_imp hc
  have hsplit := (List.takeWhile_append_dropWhile (p := isSpace) (l := t)).symm
  have hhead : ∀ c ∈ (t.dropWhile isSpace).head?, ¬isSpace c := by
    intro c hc
    have hnot := List.head?_dropWhile_not isSpace t
    rw [hc] at hnot
    simpa using hnot
  cases hu : t.dropWhile isSpace with
  | nil =>
    rw [hu] at hsplit
    exact ⟨_, [], [], hsplit, hblanks, .inr (.inr ⟨rfl, nofun⟩)⟩
  | cons c u =>
    rw [hu] at hsplit hhead
    by_cases hplus : c = '+'
    · exact ⟨_, ['+'], u, hplus ▸ hsplit, hblanks, .inl rfl⟩
    · by_cases hminus : c = '-'
      · exact ⟨_, ['-'], u, hminus ▸ hsplit, hblanks, .inr (.inl rfl)⟩
      · refine ⟨_, [], c :: u, hsplit, hblanks, .inr (.inr ⟨rfl, ?_⟩)⟩
        rintro _ ⟨⟩
        exact ⟨hhead c rfl, hplus, hminus⟩

/-- The text begins with the number: blanks, a sign or none, and all the digits that follow. -/
def BeginsWith (s : Str) (n : Int) : Prop :=
  ∃ blanks sign digits rest, s = blanks ++ (sign ++ (digits ++ rest)) ∧
    Signed blanks sign (digits ++ rest) ∧ digits ≠ [] ∧ (∀ c ∈ digits, c.isDigit) ∧
    (∀ c ∈ rest.head?, ¬c.isDigit) ∧ n = signed sign digits

theorem Signed.beginsWith {blanks sign u : Str} (h : Signed blanks sign u)
    (hne : u.takeWhile Char.isDigit ≠ []) :
    BeginsWith (blanks ++ (sign ++ u)) (signed sign (u.takeWhile Char.isDigit)) := by
  have hsplit := (List.takeWhile_append_dropWhile (p := Char.isDigit) (l := u)).symm
  refine ⟨blanks, sign, u.takeWhile Char.isDigit, u.dropWhile Char.isDigit, by rw [← hsplit],
    by rwa [← hsplit], hne, fun c hc => List.mem_takeWhile_imp hc, fun c hc => ?_, rfl⟩
  have hnot := List.head?_dropWhile_not Char.isDigit u
  rw [hc] at hnot
  simpa using hnot

/-- Digits without a sign in front. -/
theorem beginsWith_of_digits {digits : Str} (hne : digits ≠ [])
    (hdigits : ∀ c ∈ digits, c.isDigit) : BeginsWith digits (decimalValue digits) := by
  refine ⟨[], [], digits, [], by simp, ⟨nofun, .inr (.inr ⟨rfl, fun c hc => ?_⟩)⟩, hne, hdigits,
    nofun, rfl⟩
  have hc : c.isDigit := hdigits c (by simpa using List.mem_of_mem_head? hc)
  refine ⟨?_, ?_, ?_⟩
  · intro hspace
    simp only [isSpace, Bool.or_eq_true, beq_iff_eq] at hspace
    rcases hspace with ((((rfl | rfl) | rfl) | rfl) | rfl) | rfl <;> cases hc
  · rintro rfl
    cases hc
  · rintro rfl
    cases hc

end Numbers
end CppStandardLibrary
