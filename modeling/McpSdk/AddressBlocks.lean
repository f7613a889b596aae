import McpSdk.CppTexts
import McpSdk.IpFilter
import Mathlib.Tactic.Ring

/-!
# What the entries of the IP filter stand for

An entry writes a block: an address in dotted decimal, alone or with a length behind it. The
filter compiles well-formed entries to exactly their blocks, and then decides as the policy of its
lists says. It accepts other entries too: those in which a small enough number follows the first
slash, whatever stands in front of the slash and behind the number.
-/

namespace McpSdk.AddressBlocks
open CppStandardLibrary

section Addresses

theorem octet_eq_some_iff {s : Str} {v : UInt32} :
    octet s = some v ↔ ∃ n ≤ 255, s = toStr n ∧ v = UInt32.ofNat n := by
  unfold octet
  constructor
  · intro h
    obtain ⟨⟨hne, hdigits, hzero, hle⟩, hv⟩ := Option.ite_none_right_eq_some.mp h
    have htext := toStr_decimalValue hne (List.all_eq_true.mp hdigits) hzero
    exact ⟨decimalValue s, hle, htext.symm, (Option.some.inj hv).symm⟩
  · rintro ⟨n, hn, rfl, rfl⟩
    have hzero : (toStr n).length = 1 ∨ (toStr n).head? ≠ some '0' := by
      exact toStr_canonical n
    have hvalid : toStr n ≠ [] ∧ (toStr n).all Char.isDigit ∧
        ((toStr n).length = 1 ∨ (toStr n).head? ≠ some '0') ∧ decimalValue (toStr n) ≤ 255 :=
      ⟨toStr_ne_nil n, List.all_eq_true.mpr (fun _ => isDigit_of_mem_toStr), hzero,
        (decimalValue_toStr n).trans_le hn⟩
    rw [if_pos hvalid, decimalValue_toStr]

def dotted (a b c d : ℕ) : Str :=
  toStr a ++ '.' :: (toStr b ++ '.' :: (toStr c ++ '.' :: toStr d))

def quad (a b c d : ℕ) : ℕ := ((a * 2 ^ 8 + b) * 2 ^ 8 + c) * 2 ^ 8 + d

theorem or_octet {x n : ℕ} (hn : n ≤ 255) (k : ℕ) :
    x <<< (k + 8) ||| n <<< k = (x * 2 ^ 8 + n) <<< k := by
  have hlt : n <<< k < 2 ^ (k + 8) := by
    rw [Nat.shiftLeft_eq, Nat.pow_add, Nat.mul_comm]
    exact Nat.mul_lt_mul_of_pos_left (by omega) (by positivity)
  rw [← Nat.shiftLeft_add_eq_or_of_lt hlt, Nat.shiftLeft_eq, Nat.shiftLeft_eq, Nat.shiftLeft_eq,
    Nat.pow_add]
  ring

theorem toNat_quad {a b c d : ℕ} (ha : a ≤ 255) (hb : b ≤ 255) (hc : c ≤ 255) (hd : d ≤ 255) :
    (UInt32.ofNat a <<< 24 ||| UInt32.ofNat b <<< 16 ||| UInt32.ofNat c <<< 8 |||
      UInt32.ofNat d).toNat = quad a b c d := by
  have octet : ∀ {n : ℕ} {k : UInt32}, n ≤ 255 → k.toNat ≤ 24 →
      (UInt32.ofNat n <<< k).toNat = n <<< k.toNat := by
    intro n k hn hk
    have hlt : n <<< k.toNat < 2 ^ 32 := by
      rw [Nat.shiftLeft_eq]
      calc n * 2 ^ k.toNat ≤ 255 * 2 ^ 24 :=
            Nat.mul_le_mul hn (Nat.pow_le_pow_right (by decide) hk)
        _ < 2 ^ 32 := by decide
    have hshift : k.toNat % 32 = k.toNat := Nat.mod_eq_of_lt (hk.trans_lt (by decide))
    rw [UInt32.toNat_shiftLeft, UInt32.toNat_ofNat_of_lt' (hn.trans_lt (by decide)), hshift,
      Nat.mod_eq_of_lt hlt]
  have hlast : (UInt32.ofNat d).toNat = d <<< 0 :=
    UInt32.toNat_ofNat_of_lt' (hd.trans_lt (by decide))
  rw [UInt32.toNat_or, UInt32.toNat_or, UInt32.toNat_or, octet ha (by decide),
    octet hb (by decide), octet hc (by decide), hlast]
  have h₁ : a <<< UInt32.toNat 24 ||| b <<< UInt32.toNat 16 = (a * 2 ^ 8 + b) <<< 16 :=
    or_octet hb 16
  have h₂ : (a * 2 ^ 8 + b) <<< 16 ||| c <<< UInt32.toNat 8 = ((a * 2 ^ 8 + b) * 2 ^ 8 + c) <<< 8 :=
    or_octet hc 8
  rw [h₁, h₂]
  exact or_octet hd 0

theorem dot_notMem_toStr (n : ℕ) : '.' ∉ toStr n :=
  fun h => absurd (isDigit_of_mem_toStr h) (by decide)

/-- The texts of addresses are the dotted-decimal ones. -/
theorem inetPton_eq_some_iff {s : Str} {ip : UInt32} :
    inetPton s = some ip ↔ ∃ a ≤ 255, ∃ b ≤ 255, ∃ c ≤ 255, ∃ d ≤ 255,
      s = dotted a b c d ∧ ip.toNat = quad a b c d := by
  constructor
  · intro h
    unfold inetPton at h
    split at h
    · rename_i x y z w hparts
      obtain ⟨s₁, _, hsplit, hx, hparts⟩ := List.map_eq_cons_iff.mp hparts
      obtain ⟨s₂, _, rfl, hy, hparts⟩ := List.map_eq_cons_iff.mp hparts
      obtain ⟨s₃, _, rfl, hz, hparts⟩ := List.map_eq_cons_iff.mp hparts
      obtain ⟨s₄, _, rfl, hw, hparts⟩ := List.map_eq_cons_iff.mp hparts
      obtain rfl := List.map_eq_nil_iff.mp hparts
      obtain ⟨a, ha, rfl, rfl⟩ := octet_eq_some_iff.mp hx
      obtain ⟨b, hb, rfl, rfl⟩ := octet_eq_some_iff.mp hy
      obtain ⟨c, hc, rfl, rfl⟩ := octet_eq_some_iff.mp hz
      obtain ⟨d, hd, rfl, rfl⟩ := octet_eq_some_iff.mp hw
      obtain rfl := Option.some.inj h
      refine ⟨a, ha, b, hb, c, hc, d, hd, ?_, toNat_quad ha hb hc hd⟩
      have hjoin : ['.'].intercalate (s.splitOn '.') = s := List.intercalate_splitOn '.'
      rw [hsplit] at hjoin
      simpa [dotted, List.intercalate] using hjoin.symm
    · cases h
  · rintro ⟨a, ha, b, hb, c, hc, d, hd, rfl, hip⟩
    have hsplit : (dotted a b c d).splitOn '.' = [toStr a, toStr b, toStr c, toStr d] := by
      unfold dotted
      rw [List.splitOn_append_cons_self_of_not_mem (dot_notMem_toStr a),
        List.splitOn_append_cons_self_of_not_mem (dot_notMem_toStr b),
        List.splitOn_append_cons_self_of_not_mem (dot_notMem_toStr c),
        List.splitOn_eq_singleton (dot_notMem_toStr d)]
    have hoctet : ∀ n ≤ 255, octet (toStr n) = some (UInt32.ofNat n) :=
      fun n hn => octet_eq_some_iff.mpr ⟨n, hn, rfl, rfl⟩
    have hvalue : ip = UInt32.ofNat a <<< 24 ||| UInt32.ofNat b <<< 16 ||| UInt32.ofNat c <<< 8 |||
        UInt32.ofNat d := UInt32.toNat_inj.mp (hip.trans (toNat_quad ha hb hc hd).symm)
    simp [inetPton, hsplit, hoctet a ha, hoctet b hb, hoctet c hc, hoctet d hd, hvalue]

end Addresses

section Blocks

/-- A block of addresses: all that agree with one of them in their first bits. -/
structure Block where
  address : UInt32
  length : ℕ
  bounded : length ≤ 32

/-- The top bits of the two addresses agree, as many as the block says. -/
def Block.Contains (b : Block) (ip : UInt32) : Prop :=
  ip.toNat >>> (32 - b.length) = b.address.toNat >>> (32 - b.length)

def maskOf (n : ℕ) : UInt32 := if n = 0 then 0 else (~~~0 : UInt32) <<< UInt32.ofNat (32 - n)

theorem testBit_maskOf {n : ℕ} (hn : n ≤ 32) (i : ℕ) :
    (maskOf n).toNat.testBit i = decide (32 - n ≤ i ∧ i < 32) := by
  unfold maskOf
  split
  · rename_i hzero
    subst hzero
    simp
  · rename_i hpos
    have hshift : (UInt32.ofNat (32 - n)).toNat % 32 = 32 - n := by
      rw [UInt32.toNat_ofNat_of_lt' ((Nat.sub_le 32 n).trans_lt (by decide))]
      exact Nat.mod_eq_of_lt (by omega)
    have hones : (~~~0 : UInt32).toNat = 2 ^ 32 - 1 := rfl
    rw [UInt32.toNat_shiftLeft, hshift, hones, Nat.testBit_mod_two_pow, Nat.testBit_shiftLeft,
      Nat.testBit_two_pow_sub_one]
    grind

theorem and_maskOf_eq_iff {n : ℕ} (hn : n ≤ 32) (a b : UInt32) :
    a &&& maskOf n = b &&& maskOf n ↔ a.toNat >>> (32 - n) = b.toNat >>> (32 - n) := by
  have htop : ∀ (x : UInt32) {i : ℕ}, 32 ≤ i → x.toNat.testBit i = false := fun x i hi =>
    Nat.testBit_lt_two_pow (x.toNat_lt.trans_le (Nat.pow_le_pow_right (by decide) hi))
  rw [← UInt32.toNat_inj, UInt32.toNat_and, UInt32.toNat_and]
  constructor
  · intro h
    refine Nat.eq_of_testBit_eq (fun i => ?_)
    rw [Nat.testBit_shiftRight, Nat.testBit_shiftRight]
    by_cases hi : 32 - n + i < 32
    · have hbit := congrArg (fun x => x.testBit (32 - n + i)) h
      simpa [Nat.testBit_and, testBit_maskOf hn, hi] using hbit
    · rw [htop a (not_lt.mp hi), htop b (not_lt.mp hi)]
  · intro h
    refine Nat.eq_of_testBit_eq (fun i => ?_)
    rw [Nat.testBit_and, Nat.testBit_and, testBit_maskOf hn]
    by_cases hi : 32 - n ≤ i ∧ i < 32
    · have hbit := congrArg (fun x => x.testBit (i - (32 - n))) h
      simp only [Nat.testBit_shiftRight, Nat.add_sub_cancel' hi.1] at hbit
      rw [hbit]
    · rw [decide_eq_false hi, Bool.and_false, Bool.and_false]

end Blocks

section Entries

theorem stoi_append {blanks sign u : Str} (h : Signed blanks sign u) :
    stoi (blanks ++ (sign ++ u)) =
      if u.takeWhile Char.isDigit = [] then none
      else if signed sign (u.takeWhile Char.isDigit) < -2 ^ 31 ∨
          2 ^ 31 ≤ signed sign (u.takeWhile Char.isDigit) then none
      else some (signed sign (u.takeWhile Char.isDigit)) := by
  obtain ⟨hblanks, hsign⟩ := h
  unfold stoi
  rw [List.dropWhile_append_of_pos hblanks]
  rcases hsign with rfl | rfl | ⟨rfl, hhead⟩
  · rfl
  · rfl
  · cases u with
    | nil => rfl
    | cons c u =>
      obtain ⟨hspace, hplus, hminus⟩ := hhead c rfl
      rw [List.nil_append, List.dropWhile_cons_of_neg hspace]
      dsimp only
      split
      · rename_i heq
        exact absurd (List.cons.inj heq).1 hminus
      · rename_i heq
        exact absurd (List.cons.inj heq).1 hplus
      · rfl

theorem stoi_eq_some_iff {t : Str} {n : Int} :
    stoi t = some n ↔ BeginsWith t n ∧ -2 ^ 31 ≤ n ∧ n < 2 ^ 31 := by
  constructor
  · intro h
    obtain ⟨blanks, sign, u, rfl, hsigned⟩ := exists_signed t
    rw [stoi_append hsigned] at h
    obtain ⟨hne, h⟩ := Option.ite_none_left_eq_some.mp h
    obtain ⟨hrange, hvalue⟩ := Option.ite_none_left_eq_some.mp h
    obtain rfl := Option.some.inj hvalue
    exact ⟨hsigned.beginsWith hne, by omega, by omega⟩
  · rintro ⟨⟨blanks, sign, digits, rest, rfl, hsigned, hne, hdigits, hrest, rfl⟩, hlow, hhigh⟩
    rw [stoi_append hsigned, takeWhile_isDigit_append hdigits hrest, if_neg hne,
      if_neg (by omega)]

/-- The text of an entry that is taken for the address, and the length that is read from it. What
stands behind the number does not count. -/
def Splits (e address : Str) (n : ℕ) : Prop :=
  '/' ∉ e ∧ address = e ∧ n = 32 ∨
    ∃ t, e = address ++ '/' :: t ∧ '/' ∉ address ∧ BeginsWith t n ∧ n ≤ 32

theorem Splits.le {e address : Str} {n : ℕ} (h : Splits e address n) : n ≤ 32 := by
  rcases h with ⟨-, -, rfl⟩ | ⟨t, -, -, -, hle⟩
  · exact le_refl 32
  · exact hle

theorem find_slash {e : Str} {pos : ℕ} :
    find e '/' 0 = some pos ↔ ∃ address t, e = address ++ '/' :: t ∧ '/' ∉ address ∧
      pos = address.length := by
  have h := find_append [] (s := e) (c := '/') (k := pos)
  simpa using h

theorem find_slash_eq_none {e : Str} : find e '/' 0 = none ↔ '/' ∉ e := by
  rw [Option.eq_none_iff_forall_ne_some]
  constructor
  · intro h hmem
    obtain ⟨address, t, rfl, hnone⟩ := List.eq_append_cons_of_mem hmem
    exact h _ (find_slash.mpr ⟨address, t, rfl, hnone, rfl⟩)
  · intro h pos hpos
    obtain ⟨address, t, rfl, -⟩ := find_slash.mp hpos
    exact h (List.mem_append_right _ (.head _))

theorem mask_eq {n : ℕ} (h : n ≤ 32) :
    (if (n : Int) = 0 then (0 : UInt32)
      else (~~~0 : UInt32) <<< UInt32.ofNat (32 - (n : Int)).toNat) = maskOf n := by
  have hsub : (32 - (n : Int)).toNat = 32 - n := by omega
  rw [hsub, maskOf]
  exact if_congr Int.natCast_eq_zero rfl rfl

/-- `_parse_cidr` accepts what splits, whatever the address. -/
theorem parseCidr_eq_ok_iff {e : Str} {entry : CidrEntry} : IpFilter.parseCidr e = .ok entry ↔
    ∃ address n, Splits e address n ∧
      entry = ⟨IpFilter.parseIp address &&& maskOf n, maskOf n⟩ := by
  unfold IpFilter.parseCidr
  cases hslash : find e '/' 0 with
  | none =>
    have hnone := find_slash_eq_none.mp hslash
    have hrange : ¬((32 : Int) < 0 ∨ (32 : Int) < 32) := by decide
    have hmask := mask_eq (le_refl 32)
    dsimp only
    rw [if_neg hrange]
    constructor
    · intro h
      exact ⟨e, 32, .inl ⟨hnone, rfl, rfl⟩, (Except.ok.inj h).symm.trans (by rw [← hmask]; rfl)⟩
    · rintro ⟨address, n, ⟨-, rfl, rfl⟩ | ⟨t, rfl, -⟩, rfl⟩
      · rw [← hmask]
        rfl
      · exact absurd (List.mem_append_right _ (.head _)) hnone
  | some pos =>
    obtain ⟨address, t, rfl, hnone, rfl⟩ := find_slash.mp hslash
    have haddress : substr (address ++ '/' :: t) 0 address.length = address :=
      substr_append [] address _
    have ht : (address ++ '/' :: t).drop (address.length + 1) = t := by simp
    dsimp only
    rw [haddress, ht]
    constructor
    · intro h
      split at h
      · cases h
      · rename_i pfx hpfx
        split at h
        · cases h
        · rename_i hrange
          obtain ⟨n, rfl⟩ := Int.eq_ofNat_of_zero_le (by omega : 0 ≤ pfx)
          have hle : n ≤ 32 := by omega
          refine ⟨address, n, .inr ⟨t, rfl, hnone, (stoi_eq_some_iff.mp hpfx).1, hle⟩, ?_⟩
          rw [← mask_eq hle]
          exact (Except.ok.inj h).symm
    · rintro ⟨address', n, ⟨hnot, -⟩ | ⟨t', heq, hnone', hbegins, hle⟩, rfl⟩
      · exact absurd (List.mem_append_right _ (.head _)) hnot
      · obtain ⟨rfl, rfl⟩ := append_cons_inj hnone hnone' heq
        have hpfx : stoi t = some (n : Int) :=
          stoi_eq_some_iff.mpr ⟨hbegins, by omega, by omega⟩
        rw [hpfx]
        dsimp only
        rw [if_neg (by omega), mask_eq hle]

/-- The entry writes the block: an address, alone or with a length from 0 to 32 behind it. -/
def Writes (e : Str) (b : Block) : Prop :=
  inetPton e = some b.address ∧ b.length = 32 ∨
    ∃ address digits, e = address ++ '/' :: digits ∧ inetPton address = some b.address ∧
      digits ≠ [] ∧ (∀ c ∈ digits, c.isDigit) ∧ decimalValue digits = b.length

def WellFormed (e : Str) : Prop := ∃ b, Writes e b

/-- The address is in the block that the entry writes. -/
def Matches (e : Str) (ip : UInt32) : Prop := ∃ b, Writes e b ∧ b.Contains ip

theorem notMem_of_inetPton {s : Str} {ip : UInt32} (h : inetPton s = some ip) {x : Char}
    (hdigit : x.isDigit = false) (hdot : x ≠ '.') : x ∉ s := by
  obtain ⟨a, -, b, -, c, -, d, -, rfl, -⟩ := inetPton_eq_some_iff.mp h
  have hnumber : ∀ n, x ∉ toStr n := by
    intro n hmem
    rw [isDigit_of_mem_toStr hmem] at hdigit
    cases hdigit
  simp [dotted, hnumber, hdot]

theorem parseIp_eq {s : Str} (h : '\x00' ∉ s) : IpFilter.parseIp s = (inetPton s).getD 0 := by
  have hwhole : s.takeWhile (· ≠ '\x00') = s := by
    rw [List.takeWhile_eq_self_iff]
    rintro c hc
    simp only [decide_eq_true_eq]
    rintro rfl
    exact h hc
  rw [IpFilter.parseIp, hwhole]

theorem parseIp_of_inetPton {s : Str} {ip : UInt32} (h : inetPton s = some ip) :
    IpFilter.parseIp s = ip := by
  rw [parseIp_eq (notMem_of_inetPton h (by decide) (by decide)), h, Option.getD_some]

theorem parseCidr_of_writes {e : Str} {b : Block} (h : Writes e b) :
    IpFilter.parseCidr e = .ok ⟨b.address &&& maskOf b.length, maskOf b.length⟩ := by
  rw [parseCidr_eq_ok_iff]
  rcases h with ⟨haddress, hlength⟩ | ⟨address, digits, rfl, haddress, hne, hdigits, hvalue⟩
  · refine ⟨e, b.length,
      .inl ⟨notMem_of_inetPton haddress (by decide) (by decide), rfl, hlength⟩, ?_⟩
    rw [parseIp_of_inetPton haddress]
  · refine ⟨address, b.length, .inr ⟨digits, rfl,
      notMem_of_inetPton haddress (by decide) (by decide), ?_, b.bounded⟩, ?_⟩
    · rw [← hvalue]
      exact beginsWith_of_digits hne hdigits
    · rw [parseIp_of_inetPton haddress]

theorem covers_iff (b : Block) (ip : UInt32) :
    IpFilter.CidrEntry.covers ⟨b.address &&& maskOf b.length, maskOf b.length⟩ ip ↔
      b.Contains ip := by
  rw [IpFilter.CidrEntry.covers, beq_iff_eq]
  exact and_maskOf_eq_iff b.bounded ip b.address

theorem covers_of_wellFormed {e : Str} {entry : CidrEntry} (he : WellFormed e)
    (h : IpFilter.parseCidr e = .ok entry) (ip : UInt32) :
    IpFilter.CidrEntry.covers entry ip ↔ Matches e ip := by
  obtain ⟨b, hb⟩ := he
  have hentry : ∀ {b : Block}, Writes e b →
      entry = ⟨b.address &&& maskOf b.length, maskOf b.length⟩ := fun hb =>
    Except.ok.inj (h.symm.trans (parseCidr_of_writes hb))
  constructor
  · intro hcovers
    rw [hentry hb] at hcovers
    exact ⟨b, hb, (covers_iff b ip).mp hcovers⟩
  · rintro ⟨b', hb', hcontains⟩
    rw [hentry hb']
    exact (covers_iff b' ip).mpr hcontains

theorem mapM_eq_ok_iff {α β ε : Type} {f : α → Except ε β} {xs : List α} {ys : List β} :
    xs.mapM f = .ok ys ↔ List.Forall₂ (fun x y => f x = .ok y) xs ys := by
  induction xs generalizing ys with
  | nil =>
    rw [List.mapM_nil, List.forall₂_nil_left_iff]
    exact ⟨fun h => (Except.ok.inj h).symm, fun h => h ▸ rfl⟩
  | cons x xs ih =>
    rw [List.mapM_cons, List.forall₂_cons_left_iff]
    cases hx : f x with
    | error e =>
      refine iff_of_false (fun h => by cases h) ?_
      rintro ⟨y, ys, h, -⟩
      cases h
    | ok y =>
      cases hxs : xs.mapM f with
      | error e =>
        refine iff_of_false (fun h => ?_) ?_
        · cases h
        · rintro ⟨y', ys', -, hys, -⟩
          rw [ih.mpr hys] at hxs
          cases hxs
      | ok zs =>
        constructor
        · intro h
          exact ⟨y, zs, rfl, ih.mp hxs, (Except.ok.inj h).symm⟩
        · rintro ⟨y', ys', hy, hys, rfl⟩
          obtain rfl := Except.ok.inj hy
          obtain rfl := Except.ok.inj (hxs.symm.trans (ih.mpr hys))
          rfl

end Entries

section Filter

theorem ofConfig_eq_ok_iff {cfg : IpFilterConfig} {f : IpFilter} :
    IpFilter.ofConfig cfg = .ok f ↔
      List.Forall₂ (fun e entry => IpFilter.parseCidr e = .ok entry) cfg.blacklist f.blacklist ∧
      List.Forall₂ (fun e entry => IpFilter.parseCidr e = .ok entry) cfg.whitelist f.whitelist ∧
      f.defaultAllow = cfg.defaultAllow := by
  rw [← mapM_eq_ok_iff, ← mapM_eq_ok_iff]
  unfold IpFilter.ofConfig
  cases hblack : cfg.blacklist.mapM IpFilter.parseCidr with
  | error e => exact iff_of_false nofun (fun h => by cases h.1)
  | ok blacklist =>
    cases hwhite : cfg.whitelist.mapM IpFilter.parseCidr with
    | error e => exact iff_of_false nofun (fun h => by cases h.2.1)
    | ok whitelist =>
      obtain ⟨white, black, default⟩ := f
      constructor
      · intro h
        cases h
        exact ⟨rfl, rfl, rfl⟩
      · rintro ⟨h₁, h₂, h₃⟩
        obtain rfl := Except.ok.inj h₁
        obtain rfl := Except.ok.inj h₂
        obtain rfl : default = cfg.defaultAllow := h₃
        rfl

theorem any_covers_iff {es : List Str} {entries : List CidrEntry}
    (h : List.Forall₂ (fun e entry => IpFilter.parseCidr e = .ok entry) es entries)
    (hes : ∀ e ∈ es, WellFormed e) (ip : UInt32) :
    entries.any (fun e => IpFilter.CidrEntry.covers e ip) ↔ ∃ e ∈ es, Matches e ip := by
  induction h with
  | nil => simp
  | cons hentry _ ih =>
    obtain ⟨he, hes⟩ := List.forall_mem_cons.mp hes
    rw [List.any_cons, Bool.or_eq_true, covers_of_wellFormed he hentry, ih hes]
    simp

theorem exists_compiled {es : List Str} (h : ∀ e ∈ es, ∃ entry, IpFilter.parseCidr e = .ok entry) :
    ∃ entries, List.Forall₂ (fun e entry => IpFilter.parseCidr e = .ok entry) es entries := by
  induction es with
  | nil => exact ⟨[], .nil⟩
  | cons e es ih =>
    obtain ⟨⟨entry, hentry⟩, hes⟩ := List.forall_mem_cons.mp h
    obtain ⟨entries, hentries⟩ := ih hes
    exact ⟨entry :: entries, .cons hentry hentries⟩

theorem compiles_of_mem {es : List Str} {entries : List CidrEntry}
    (h : List.Forall₂ (fun e entry => IpFilter.parseCidr e = .ok entry) es entries) {e : Str}
    (he : e ∈ es) : ∃ entry, IpFilter.parseCidr e = .ok entry := by
  induction h with
  | nil => cases he
  | cons hentry _ ih =>
    rcases List.mem_cons.mp he with rfl | he
    · exact ⟨_, hentry⟩
    · exact ih he

theorem compiles_of_wellFormed {e : Str} (h : WellFormed e) :
    ∃ entry, IpFilter.parseCidr e = .ok entry := by
  obtain ⟨b, hb⟩ := h
  exact ⟨_, parseCidr_of_writes hb⟩

/-- The builder is given a blacklist, and a whitelist or none. -/
def configured (whitelist : Option (List Str)) (blacklist : List Str) : SecurityPolicy :=
  (whitelist.elim {} (SecurityPolicy.withIpWhitelist {})).withIpBlacklist blacklist

/-- The policy of the lists. What is no address passes if there is no whitelist; an address passes
if no entry of the blacklist matches it and some entry of the whitelist does, if there is one. -/
def Permits (whitelist : Option (List Str)) (blacklist : List Str) (s : Str) : Prop :=
  match inetPton s with
  | none => whitelist = none
  | some ip => (∀ e ∈ blacklist, ¬Matches e ip) ∧
      ∀ entries, whitelist = some entries → ∃ e ∈ entries, Matches e ip

theorem eq_of_inetPton_zero {s : Str} (h : inetPton s = some 0) : s = "0.0.0.0".toList := by
  obtain ⟨a, -, b, -, c, -, d, -, rfl, hvalue⟩ := inetPton_eq_some_iff.mp h
  have hzero : quad a b c d = 0 := hvalue.symm
  unfold quad at hzero
  obtain ⟨rfl, rfl, rfl, rfl⟩ : a = 0 ∧ b = 0 ∧ c = 0 ∧ d = 0 := by omega
  rfl

theorem isAllowed_of_no_address {s : Str} (hs : '\x00' ∉ s) (hip : inetPton s = none)
    (f : IpFilter) : f.isAllowed s = f.defaultAllow := by
  have hother : (s != "0.0.0.0".toList) = true := by
    rw [bne_iff_ne]
    rintro rfl
    cases hip
  unfold IpFilter.isAllowed
  rw [parseIp_eq hs, hip]
  simp only [Option.getD_none, beq_self_eq_true, hother, Bool.and_self, if_true, ite_self]

theorem isAllowed_of_address {s : Str} {ip : UInt32} (hip : inetPton s = some ip) (f : IpFilter) :
    f.isAllowed s = (!f.blacklist.any (fun e => IpFilter.CidrEntry.covers e ip) &&
      if f.whitelist.isEmpty then f.defaultAllow
      else f.whitelist.any (fun e => IpFilter.CidrEntry.covers e ip)) := by
  have hne : s.isEmpty = false := by
    cases s with
    | nil => cases hip
    | cons => rfl
  -- the address 0 is told from a failure by its text
  have hzero : (ip == 0 && s != "0.0.0.0".toList) = false := by
    rw [Bool.and_eq_false_iff]
    by_cases h0 : ip = 0
    · subst h0
      exact .inr (bne_eq_false_iff_eq.mpr (eq_of_inetPton_zero hip))
    · exact .inl (beq_eq_false_iff_ne.mpr h0)
  unfold IpFilter.isAllowed
  rw [hne, parseIp_of_inetPton hip]
  dsimp only
  rw [hzero]
  cases f.blacklist.any (fun e => IpFilter.CidrEntry.covers e ip) <;>
    cases f.whitelist.isEmpty <;> rfl

/-- With well-formed lists the filter follows their policy on every text. -/
theorem isAllowed_iff_permits {whitelist : Option (List Str)} {blacklist : List Str}
    (hwhite : ∀ entries, whitelist = some entries → ∀ e ∈ entries, WellFormed e)
    (hblack : ∀ e ∈ blacklist, WellFormed e) {s : Str} (hs : '\x00' ∉ s) :
    ∃ f, IpFilter.ofConfig (configured whitelist blacklist).ipFilter = .ok f ∧
      (f.isAllowed s ↔ Permits whitelist blacklist s) := by
  have hgetD : ∀ e ∈ whitelist.getD [], WellFormed e := by
    intro e he
    cases whitelist with
    | none => cases he
    | some entries => exact hwhite entries rfl e he
  obtain ⟨black, hcompiled⟩ := exists_compiled (fun e he => compiles_of_wellFormed (hblack e he))
  obtain ⟨white, hcompiled'⟩ := exists_compiled (fun e he => compiles_of_wellFormed (hgetD e he))
  have hok : IpFilter.ofConfig (configured whitelist blacklist).ipFilter =
      .ok ⟨white, black, whitelist.isNone⟩ := by
    rw [ofConfig_eq_ok_iff]
    cases whitelist <;> exact ⟨hcompiled, hcompiled', rfl⟩
  refine ⟨_, hok, ?_⟩
  unfold Permits
  cases hip : inetPton s with
  | none =>
    rw [isAllowed_of_no_address hs hip]
    exact Option.isNone_iff_eq_none
  | some ip =>
    have hblocked := any_covers_iff hcompiled hblack ip
    have hlisted := any_covers_iff hcompiled' hgetD ip
    rw [isAllowed_of_address hip, Bool.and_eq_true, Bool.not_eq_true', Bool.eq_false_iff, ne_eq,
      hblocked, not_exists]
    refine and_congr (by simp) ?_
    cases whitelist with
    | none =>
      obtain rfl : white = [] := List.forall₂_nil_left_iff.mp hcompiled'
      exact iff_of_true rfl nofun
    | some entries =>
      have hany : (if white.isEmpty then false
          else white.any (fun e => IpFilter.CidrEntry.covers e ip)) =
          white.any (fun e => IpFilter.CidrEntry.covers e ip) := by
        cases white <;> rfl
      rw [Option.isNone_some, hany, hlisted]
      simp

/-- 10.0.0.0/8 but for 10.0.1.0/24. -/
theorem isAllowed_iff_permits_private : ∃ f,
    IpFilter.ofConfig (configured (some ["10.0.0.0/8".toList]) ["10.0.1.0/24".toList]).ipFilter =
      .ok f ∧ (f.isAllowed "10.0.2.3".toList ↔
        Permits (some ["10.0.0.0/8".toList]) ["10.0.1.0/24".toList] "10.0.2.3".toList) := by
  have hten : WellFormed "10.0.0.0/8".toList := ⟨⟨0x0A000000, 8, by decide⟩,
    .inr ⟨"10.0.0.0".toList, "8".toList, rfl, by decide, by decide, List.all_eq_true.mp rfl, rfl⟩⟩
  have hone : WellFormed "10.0.1.0/24".toList := ⟨⟨0x0A000100, 24, by decide⟩,
    .inr ⟨"10.0.1.0".toList, "24".toList, rfl, by decide, by decide, List.all_eq_true.mp rfl, rfl⟩⟩
  refine isAllowed_iff_permits ?_ ?_ (by decide)
  · rintro _ ⟨⟩ e he
    rw [List.mem_singleton.mp he]
    exact hten
  · rintro e he
    rw [List.mem_singleton.mp he]
    exact hone

/-- What an entry has to be for the constructor to accept it: it ends without a slash, or a number
from 0 to 32 stands behind the first one. -/
def Accepted (e : Str) : Prop := ∃ address n, Splits e address n

theorem accepted_iff {e : Str} : Accepted e ↔ ∃ entry, IpFilter.parseCidr e = .ok entry := by
  constructor
  · rintro ⟨address, n, h⟩
    exact ⟨_, parseCidr_eq_ok_iff.mpr ⟨address, n, h, rfl⟩⟩
  · rintro ⟨entry, h⟩
    obtain ⟨address, n, h, -⟩ := parseCidr_eq_ok_iff.mp h
    exact ⟨address, n, h⟩

theorem ofConfig_ok_iff {cfg : IpFilterConfig} : (∃ f, IpFilter.ofConfig cfg = .ok f) ↔
    ∀ e ∈ cfg.blacklist ++ cfg.whitelist, Accepted e := by
  constructor
  · rintro ⟨f, hf⟩ e he
    obtain ⟨hblack, hwhite, -⟩ := ofConfig_eq_ok_iff.mp hf
    rw [accepted_iff]
    rcases List.mem_append.mp he with he | he
    · exact compiles_of_mem hblack he
    · exact compiles_of_mem hwhite he
  · intro h
    obtain ⟨hblack, hwhite⟩ := List.forall_mem_append.mp h
    obtain ⟨black, hblack⟩ := exists_compiled (fun e he => accepted_iff.mp (hblack e he))
    obtain ⟨white, hwhite⟩ := exists_compiled (fun e he => accepted_iff.mp (hwhite e he))
    exact ⟨⟨white, black, cfg.defaultAllow⟩, ofConfig_eq_ok_iff.mpr ⟨hblack, hwhite, rfl⟩⟩

/-- The constructor takes well-formed entries only, throws on others, and what it takes covers
exactly what the entries match. -/
structure Strict (cfg : IpFilterConfig) : Prop where
  wellFormed : ∀ f, IpFilter.ofConfig cfg = .ok f →
    ∀ e ∈ cfg.blacklist ++ cfg.whitelist, WellFormed e
  throws : (∃ e ∈ cfg.blacklist ++ cfg.whitelist, ¬WellFormed e) →
    ∃ error, IpFilter.ofConfig cfg = .error error
  blacklist : ∀ f, IpFilter.ofConfig cfg = .ok f → ∀ ip,
    f.blacklist.any (fun e => IpFilter.CidrEntry.covers e ip) ↔ ∃ e ∈ cfg.blacklist, Matches e ip
  whitelist : ∀ f, IpFilter.ofConfig cfg = .ok f → ∀ ip,
    f.whitelist.any (fun e => IpFilter.CidrEntry.covers e ip) ↔ ∃ e ∈ cfg.whitelist, Matches e ip

/-- The constructor is strict on the lists whose entries are all well formed, and on those with an
entry that it does not accept. -/
theorem strict_iff (cfg : IpFilterConfig) : Strict cfg ↔
    (∀ e ∈ cfg.blacklist ++ cfg.whitelist, WellFormed e) ∨
      ∃ e ∈ cfg.blacklist ++ cfg.whitelist, ¬Accepted e := by
  have hfails : (∃ e ∈ cfg.blacklist ++ cfg.whitelist, ¬Accepted e) ↔
      ∃ error, IpFilter.ofConfig cfg = .error error := by
    have hok : (∃ f, IpFilter.ofConfig cfg = .ok f) ↔
        ∀ e ∈ cfg.blacklist ++ cfg.whitelist, Accepted e := ofConfig_ok_iff
    cases hcfg : IpFilter.ofConfig cfg with
    | ok f =>
      have hall := hok.mp ⟨f, hcfg⟩
      exact iff_of_false (fun ⟨e, he, hnot⟩ => hnot (hall e he)) (fun ⟨error, h⟩ => by cases h)
    | error error =>
      refine iff_of_true ?_ ⟨error, rfl⟩
      by_contra hnone
      push Not at hnone
      obtain ⟨f, hf⟩ := hok.mpr hnone
      cases hcfg.symm.trans hf
  constructor
  · intro hstrict
    by_cases hall : ∀ e ∈ cfg.blacklist ++ cfg.whitelist, WellFormed e
    · exact .inl hall
    · push Not at hall
      exact .inr (hfails.mpr (hstrict.throws hall))
  · rintro (hall | hnot)
    · obtain ⟨hblack, hwhite⟩ := List.forall_mem_append.mp hall
      refine ⟨fun _ _ => hall, fun ⟨e, he, hnot⟩ => absurd (hall e he) hnot, ?_, ?_⟩
      · exact fun f hf ip => any_covers_iff (ofConfig_eq_ok_iff.mp hf).1 hblack ip
      · exact fun f hf ip => any_covers_iff (ofConfig_eq_ok_iff.mp hf).2.1 hwhite ip
    · obtain ⟨error, herror⟩ := hfails.mp hnot
      have hnone : ∀ f, IpFilter.ofConfig cfg ≠ .ok f := by
        intro f hf
        cases herror.symm.trans hf
      exact ⟨fun f hf => absurd hf (hnone f), fun _ => ⟨error, herror⟩,
        fun f hf => absurd hf (hnone f), fun f hf => absurd hf (hnone f)⟩

theorem not_wellFormed_shortAddress : ¬WellFormed "10.0.0/8".toList := by
  rintro ⟨b, ⟨haddress, -⟩ | ⟨address, digits, heq, haddress, -⟩⟩
  · cases haddress
  · have hslash : '/' ∉ address := notMem_of_inetPton haddress (by decide) (by decide)
    obtain ⟨rfl, -⟩ :=
      append_cons_inj (s := "10.0.0".toList) (t := "8".toList) (by decide) hslash heq
    cases haddress

/-- 10.0.0/8 is accepted, although its address is none, and blocks nothing of 10.0.0.0/8. -/
theorem accepts_malformed_entry :
    ¬Strict (configured none ["10.0.0/8".toList]).ipFilter ∧
      ∃ f, IpFilter.ofConfig (configured none ["10.0.0/8".toList]).ipFilter = .ok f ∧
        f.isAllowed "10.0.0.1".toList ∧ ¬f.isAllowed "0.0.0.1".toList := by
  have hok : ∃ f, IpFilter.ofConfig (configured none ["10.0.0/8".toList]).ipFilter = .ok f ∧
      f.isAllowed "10.0.0.1".toList ∧ ¬f.isAllowed "0.0.0.1".toList :=
    ⟨⟨[], [⟨0, 0xFF000000⟩], true⟩, by rfl, by decide, by decide⟩
  refine ⟨fun hstrict => ?_, hok⟩
  obtain ⟨f, hf, -⟩ := hok
  exact not_wellFormed_shortAddress (hstrict.wellFormed f hf _ (.head _))

end Filter
end McpSdk.AddressBlocks
