import Mathlib.Data.List.Basic
import Mathlib.Tactic.IntervalCases

/-!
# Chunked transfer coding

A message body sent in chunks: the size of each in hexadecimal, the data, and a last chunk of size
zero. The recipient reads byte by byte, so that what it has of the body is known at every moment.
There are no chunk extensions and no trailers here.
-/

namespace ChunkedCoding

/-- The end of a line. -/
def crlf : List Char := ['\r', '\n']

/-- One chunk. Its data must not be empty: a chunk of size zero is the last one. -/
def chunk (data : List Char) : List Char :=
  Nat.toDigits 16 data.length ++ crlf ++ data ++ crlf

def lastChunk : List Char := '0' :: (crlf ++ crlf)

/-- The value of a hexadecimal digit. -/
def hexValue (c : Char) : Option ℕ :=
  if '0' ≤ c ∧ c ≤ '9' then some (c.toNat - 48)
  else if 'a' ≤ c ∧ c ≤ 'f' then some (c.toNat - 87)
  else if 'A' ≤ c ∧ c ≤ 'F' then some (c.toNat - 55)
  else none

/-- Where a recipient stands. -/
inductive Mode
  /-- In the size of a chunk: its value so far, and if there has been a digit. -/
  | size (n : ℕ) (begun : Bool)
  | sizeEnd (n : ℕ)
  /-- In the data of a chunk, with one more byte than `n` to come. -/
  | data (n : ℕ)
  | dataReturn
  | dataEnd
  | lastReturn
  | lastEnd
  | done
  deriving DecidableEq

/-- A recipient: where it stands, and what it has of the body. -/
structure Recipient where
  mode : Mode := .size 0 false
  body : List Char := []

/-- One byte; none if it has no place there. -/
def Recipient.step (r : Recipient) (c : Char) : Option Recipient :=
  match r.mode with
  | .size n begun =>
      if c = '\r' then (if begun then some { r with mode := .sizeEnd n } else none)
      else (hexValue c).map (fun v => { r with mode := .size (16 * n + v) true })
  | .sizeEnd n =>
      if c = '\n' then
        match n with
        | 0 => some { r with mode := .lastReturn }
        | n + 1 => some { r with mode := .data n }
      else none
  | .data n =>
      some { mode := match n with
              | 0 => .dataReturn
              | n + 1 => .data n
             body := r.body ++ [c] }
  | .dataReturn => if c = '\r' then some { r with mode := .dataEnd } else none
  | .dataEnd => if c = '\n' then some { r with mode := .size 0 false } else none
  | .lastReturn => if c = '\r' then some { r with mode := .lastEnd } else none
  | .lastEnd => if c = '\n' then some { r with mode := .done } else none
  | .done => none

/-- The recipient after a number of bytes. -/
def Recipient.feed (r : Recipient) (bytes : List Char) : Option Recipient := bytes.foldlM step r

namespace Recipient
variable {r r' : Recipient} {bytes more : List Char}

theorem feed_append (r : Recipient) (bytes more : List Char) :
    r.feed (bytes ++ more) = (r.feed bytes).bind (·.feed more) := List.foldlM_append

theorem feed_append_of (h : r.feed bytes = some r') : r.feed (bytes ++ more) = r'.feed more := by
  rw [feed_append, h, Option.bind_some]

theorem exists_feed_of_append (h : r.feed (bytes ++ more) = some r') :
    ∃ r₁, r.feed bytes = some r₁ ∧ r₁.feed more = some r' := by
  rw [feed_append] at h
  exact Option.bind_eq_some_iff.mp h

theorem body_prefix_step {c : Char} (h : r.step c = some r') : r.body <+: r'.body := by
  have goesOn : ∀ {p : Prop} [Decidable p] {mode : Mode},
      (if p then some { r with mode := mode } else none) = some r' → r.body <+: r'.body := by
    intro p _ mode h
    split at h
    · obtain rfl := Option.some.inj h
      exact List.prefix_rfl
    · cases h
  unfold step at h
  split at h
  · split at h
    · exact goesOn h
    · obtain ⟨v, -, rfl⟩ := Option.map_eq_some_iff.mp h
      exact List.prefix_rfl
  · split at h
    · split at h <;>
      · obtain rfl := Option.some.inj h
        exact List.prefix_rfl
    · cases h
  · obtain rfl := Option.some.inj h
    exact List.prefix_append _ _
  · exact goesOn h
  · exact goesOn h
  · exact goesOn h
  · exact goesOn h
  · cases h

theorem body_prefix (h : r.feed bytes = some r') : r.body <+: r'.body := by
  induction bytes generalizing r with
  | nil =>
    obtain rfl := Option.some.inj h
    exact List.prefix_rfl
  | cons c bytes ih =>
    obtain ⟨r₁, hstep, hrest⟩ := Option.bind_eq_some_iff.mp h
    exact (body_prefix_step hstep).trans (ih hrest)

end Recipient

section Chunks
open Recipient

theorem hexValue_digitChar {d : ℕ} (h : d < 16) : hexValue d.digitChar = some d := by
  interval_cases d <;> rfl

/-- The digits of a size are read as its value. -/
theorem feed_toDigits (body : List Char) (n : ℕ) :
    feed ⟨.size 0 false, body⟩ (Nat.toDigits 16 n) = some ⟨.size n true, body⟩ := by
  induction n using Nat.strongRecOn with
  | ind n ih =>
    have digit : ∀ (m d : ℕ) (begun : Bool), d < 16 →
        feed ⟨.size m begun, body⟩ [d.digitChar] = some ⟨.size (16 * m + d) true, body⟩ := by
      intro m d begun hd
      have hvalue := hexValue_digitChar hd
      have hne : d.digitChar ≠ '\r' := by
        intro heq
        rw [heq] at hvalue
        cases hvalue
      simp [feed, step, hne, hvalue]
    by_cases hn : n < 16
    · rw [Nat.toDigits_of_lt_base hn, digit 0 n false hn, Nat.mul_zero, Nat.zero_add]
    · have hfirst := ih (n / 16) (Nat.div_lt_self (by omega) (by omega))
      rw [Nat.toDigits_of_base_le (by omega) (not_lt.mp hn), feed_append_of hfirst,
        digit _ _ _ (Nat.mod_lt n (by omega)), Nat.div_add_mod]

/-- The data of a chunk is taken into the body. -/
theorem feed_data (body data : List Char) {n : ℕ} (h : data.length = n + 1) :
    feed ⟨.data n, body⟩ data = some ⟨.dataReturn, body ++ data⟩ := by
  induction data generalizing n body with
  | nil => cases h
  | cons c data ih =>
    cases n with
    | zero =>
      obtain rfl : data = [] := List.length_eq_zero_iff.mp (Nat.succ.inj h)
      rfl
    | succ n =>
      refine (ih (body ++ [c]) (Nat.succ.inj h)).trans ?_
      rw [List.append_assoc, List.singleton_append]

theorem feed_chunk (body : List Char) {data : List Char} (h : data ≠ []) :
    feed ⟨.size 0 false, body⟩ (chunk data) = some ⟨.size 0 false, body ++ data⟩ := by
  obtain ⟨n, hn⟩ := Nat.exists_eq_succ_of_ne_zero (mt List.length_eq_zero_iff.mp h)
  have hsize : feed ⟨.size 0 false, body⟩ (Nat.toDigits 16 data.length ++ crlf) =
      some ⟨.data n, body⟩ := by
    rw [feed_append_of (feed_toDigits body data.length), hn]
    rfl
  rw [chunk, List.append_assoc _ data, feed_append_of hsize, feed_append_of (feed_data body data hn)]
  rfl

theorem feed_chunks (body : List Char) {datas : List (List Char)} (h : ∀ data ∈ datas, data ≠ []) :
    feed ⟨.size 0 false, body⟩ (datas.flatMap chunk) =
      some ⟨.size 0 false, body ++ datas.flatten⟩ := by
  induction datas generalizing body with
  | nil => simp [feed]
  | cons data datas ih =>
    obtain ⟨hdata, hdatas⟩ := List.forall_mem_cons.mp h
    rw [List.flatMap_cons, feed_append_of (feed_chunk body hdata), ih _ hdatas, List.flatten_cons,
      List.append_assoc]

theorem feed_lastChunk (body : List Char) :
    feed ⟨.size 0 false, body⟩ lastChunk = some ⟨.done, body⟩ := rfl

/-- A recipient of the first bytes of a number of chunks has a first part of their data, and has
not come to the end of the message. -/
theorem exists_feed_of_prefix {datas : List (List Char)} (h : ∀ data ∈ datas, data ≠ [])
    {bytes : List Char} (hbytes : bytes <+: datas.flatMap chunk) :
    ∃ r, feed {} bytes = some r ∧ r.body <+: datas.flatten ∧ r.mode ≠ .done := by
  obtain ⟨more, hmore⟩ := hbytes
  have hall : feed {} (datas.flatMap chunk) = some ⟨.size 0 false, [] ++ datas.flatten⟩ :=
    feed_chunks [] h
  rw [← hmore, List.nil_append] at hall
  obtain ⟨r, hr, hrest⟩ := exists_feed_of_append hall
  refine ⟨r, hr, body_prefix hrest, fun hdone => ?_⟩
  obtain ⟨mode, body⟩ := r
  obtain rfl : mode = .done := hdone
  -- nothing can follow the end
  cases more with
  | nil => cases hrest
  | cons c more => cases hrest

end Chunks
end ChunkedCoding
