import Mathlib.Data.List.Basic
import Mathlib.Data.List.TakeWhile

/-!
# Base64url

Bytes as text in the alphabet for URLs, without padding.  The reader takes both alphabets, stops at
the first `=` and skips every other character.
-/

namespace Library.Base64

/-- The characters by the six bits that they stand for. -/
def alphabet : List Char :=
  "ABCDEFGHIJKLMNOPQRSTUVWXYZabcdefghijklmnopqrstuvwxyz0123456789-_".toList

def digit (n : Nat) : Char := alphabet.getD n 'A'

def value? (c : Char) : Option Nat :=
  if c = '+' then some 62 else if c = '/' then some 63 else alphabet.idxOf? c

/-- Three bytes are four groups of six bits; one or two bytes at the end are two or three groups. -/
def sextets : List UInt8 → List Nat
  | [] => []
  | [a] => [a.toNat / 4, a.toNat % 4 * 16]
  | [a, b] => [a.toNat / 4, a.toNat % 4 * 16 + b.toNat / 16, b.toNat % 16 * 4]
  | a :: b :: c :: rest =>
    a.toNat / 4 :: (a.toNat % 4 * 16 + b.toNat / 16) :: (b.toNat % 16 * 4 + c.toNat / 64) ::
      c.toNat % 64 :: sextets rest

def octets : List Nat → List UInt8
  | [p, q] => [.ofNat (p * 4 + q / 16)]
  | [p, q, r] => [.ofNat (p * 4 + q / 16), .ofNat (q % 16 * 16 + r / 4)]
  | p :: q :: r :: s :: rest =>
    .ofNat (p * 4 + q / 16) :: .ofNat (q % 16 * 16 + r / 4) :: .ofNat (r % 4 * 64 + s) ::
      octets rest
  | _ => []

def encode (bytes : List UInt8) : String := String.ofList ((sextets bytes).map digit)

def decode (text : String) : List UInt8 :=
  octets ((text.toList.takeWhile (· ≠ '=')).filterMap value?)

theorem value_digit {n : Nat} (h : n < 64) : value? (digit n) = some n := by
  revert n
  decide +kernel

theorem digit_ne_padding {n : Nat} (h : n < 64) : digit n ≠ '=' := by
  revert n
  decide +kernel

theorem sextets_lt (bytes : List UInt8) : ∀ n ∈ sextets bytes, n < 64 := by
  fun_induction sextets bytes with
  | case1 => simp
  | case2 a =>
    have := a.toNat_lt
    simp only [List.mem_cons, List.not_mem_nil, or_false, forall_eq_or_imp, forall_eq]
    omega
  | case3 a b =>
    have := a.toNat_lt
    have := b.toNat_lt
    simp only [List.mem_cons, List.not_mem_nil, or_false, forall_eq_or_imp, forall_eq]
    omega
  -- three bytes at a time, and what is left is shorter
  | case4 a b c rest ih =>
    have := a.toNat_lt
    have := b.toNat_lt
    have := c.toNat_lt
    simp only [List.mem_cons, forall_eq_or_imp]
    exact ⟨by omega, by omega, by omega, by omega, ih⟩

/-- A byte that is put together from its two halves. -/
private theorem ofNat_eq {a : UInt8} {n : Nat} (h : n = a.toNat) : UInt8.ofNat n = a := by
  rw [h, UInt8.ofNat_toNat]

theorem octets_sextets (bytes : List UInt8) : octets (sextets bytes) = bytes := by
  fun_induction sextets bytes with
  | case1 => rfl
  -- the last group of one byte, and then of two
  | case2 a =>
    have ha : UInt8.ofNat (a.toNat / 4 * 4 + a.toNat % 4 * 16 / 16) = a := ofNat_eq (by omega)
    simp only [octets, ha]
  | case3 a b =>
    have := b.toNat_lt
    have ha : UInt8.ofNat (a.toNat / 4 * 4 + (a.toNat % 4 * 16 + b.toNat / 16) / 16) = a :=
      ofNat_eq (by omega)
    have hb : UInt8.ofNat ((a.toNat % 4 * 16 + b.toNat / 16) % 16 * 16 + b.toNat % 16 * 4 / 4) =
        b := ofNat_eq (by omega)
    simp only [octets, ha, hb]
  | case4 a b c rest ih =>
    have := b.toNat_lt
    have := c.toNat_lt
    -- each byte is put together again from the two sextets that share it
    have ha : UInt8.ofNat (a.toNat / 4 * 4 + (a.toNat % 4 * 16 + b.toNat / 16) / 16) = a :=
      ofNat_eq (by omega)
    have hb : UInt8.ofNat ((a.toNat % 4 * 16 + b.toNat / 16) % 16 * 16 +
        (b.toNat % 16 * 4 + c.toNat / 64) / 4) = b := ofNat_eq (by omega)
    have hc : UInt8.ofNat ((b.toNat % 16 * 4 + c.toNat / 64) % 4 * 64 + c.toNat % 64) = c :=
      ofNat_eq (by omega)
    simp only [octets, ha, hb, hc, ih]

/-- What is written is read back. -/
theorem decode_encode (bytes : List UInt8) : decode (encode bytes) = bytes := by
  have hdigits : ((sextets bytes).map digit).takeWhile (· ≠ '=') = (sextets bytes).map digit := by
    rw [List.takeWhile_eq_self_iff]
    intro c hc
    obtain ⟨n, hn, rfl⟩ := List.mem_map.mp hc
    exact decide_eq_true (digit_ne_padding (sextets_lt bytes n hn))
  have hvalues : ((sextets bytes).map digit).filterMap value? = sextets bytes := by
    rw [List.filterMap_map]
    calc (sextets bytes).filterMap (value? ∘ digit)
        = (sextets bytes).filterMap some :=
          List.filterMap_congr fun n hn => value_digit (sextets_lt bytes n hn)
      _ = sextets bytes := List.filterMap_some
  unfold decode encode
  rw [String.toList_ofList, hdigits, hvalues, octets_sextets]

theorem encode_ne_empty {bytes : List UInt8} (h : bytes ≠ []) : encode bytes ≠ "" := by
  intro hempty
  rw [← decode_encode bytes, hempty] at h
  exact h rfl

end Library.Base64
