import Mathlib.Tactic
import Mathlib.Data.Char
import PredicateTransfer.Lib.LexOrder

/-!
# The byte order of UTF-8

Strings are compared byte by byte in their UTF-8 encoding. UTF-8 is made so that this is the order
by code points: the lead byte of a longer encoding is larger, within one length the payload is
written most significant digit first, and no encoding is a prefix of another. `bytes_lt_iff` is
that statement, so everything above it can reason about lists of characters.
-/

namespace Utf8

/-- The bytes of one character, as numbers. -/
def encode (c : Char) : List Nat := (String.utf8EncodeChar c).map UInt8.toNat

/-- The bytes of a string. -/
def bytes (s : List Char) : List Nat := s.flatMap encode

@[simp] theorem bytes_nil : bytes [] = [] := rfl

@[simp] theorem bytes_cons (c : Char) (s : List Char) : bytes (c :: s) = encode c ++ bytes s := rfl

/-! ### One character -/

/-- The first difference of two lists is at a position both have, and the left entry is smaller
there. Whatever is appended to the lists, they then compare alike. -/
def Before (l m : List Nat) : Prop :=
  ∃ p a b l' m', l = p ++ a :: l' ∧ m = p ++ b :: m' ∧ a < b

theorem Before.append_lt {l m : List Nat} (h : Before l m) (x y : List Nat) :
    l ++ x < m ++ y := by
  obtain ⟨p, a, b, l', m', rfl, rfl, hab⟩ := h
  rw [List.append_assoc, List.append_assoc]
  exact LexOrder.append_cons_lt p hab _ _

theorem Before.head {a b : Nat} (h : a < b) (l m : List Nat) : Before (a :: l) (b :: m) :=
  ⟨[], a, b, l, m, rfl, rfl, h⟩

theorem Before.append {l m : List Nat} (h : Before l m) (x y : List Nat) :
    Before (l ++ x) (m ++ y) := by
  obtain ⟨p, a, b, l', m', rfl, rfl, hab⟩ := h
  exact ⟨p, a, b, l' ++ x, m' ++ y, by simp, by simp, hab⟩

theorem Before.last {a b : Nat} (h : a < b) (p : List Nat) : Before (p ++ [a]) (p ++ [b]) :=
  ⟨p, a, b, [], [], rfl, rfl, h⟩

/-- Numbers written with their last six bits in a byte of their own keep their order when the
leading part is written in order. -/
theorem Before.digit {f : Nat → List Nat} (hf : ∀ a b, a < b → Before (f a) (f b)) {n m : Nat}
    (h : n < m) : Before (f (n / 64) ++ [n % 64 + 128]) (f (m / 64) ++ [m % 64 + 128]) := by
  by_cases hq : n / 64 = m / 64
  · rw [hq]
    exact Before.last (by omega) _
  · exact (hf _ _ (by omega)).append _ _

/-- The two, three and four byte encodings, most significant digit first. -/
def two (n : Nat) : List Nat := [n / 64 + 192] ++ [n % 64 + 128]

@[inherit_doc two]
def three (n : Nat) : List Nat := ([n / 64 / 64 + 224] ++ [n / 64 % 64 + 128]) ++ [n % 64 + 128]

@[inherit_doc two]
def four (n : Nat) : List Nat :=
  (([n / 64 / 64 / 64 + 240] ++ [n / 64 / 64 % 64 + 128]) ++ [n / 64 % 64 + 128]) ++ [n % 64 + 128]

theorem lead_before (k : Nat) : ∀ a b, a < b → Before [a + k] [b + k] :=
  fun _ _ h => Before.head (by omega) [] []

theorem two_before {n m : Nat} (h : n < m) : Before (two n) (two m) :=
  Before.digit (lead_before 192) h

theorem three_before {n m : Nat} (h : n < m) : Before (three n) (three m) :=
  Before.digit (fun _ _ => Before.digit (lead_before 224)) h

theorem four_before {n m : Nat} (h : n < m) : Before (four n) (four m) :=
  Before.digit (fun _ _ => Before.digit (fun _ _ => Before.digit (lead_before 240))) h

theorem toNat_lt (c : Char) : c.toNat < 1114112 := by
  have h : c.toNat < 0xd800 ∨ 0xdfff < c.toNat ∧ c.toNat < 0x110000 := c.valid
  omega

/-- The encoding of a character by the size of its code point. -/
theorem encode_eq (c : Char) : encode c =
    if c.toNat ≤ 127 then [c.toNat]
    else if c.toNat ≤ 2047 then two c.toNat
    else if c.toNat ≤ 65535 then three c.toNat
    else four c.toNat := by
  have hc := toNat_lt c
  have hv : c.val.toNat = c.toNat := rfl
  unfold encode String.utf8EncodeChar two three four
  simp only [hv]
  split
  · simp; omega
  split
  · simp; omega
  split
  · simp; omega
  · simp; omega

theorem encode_before {c d : Char} (h : c < d) : Before (encode c) (encode d) := by
  have hcd : c.toNat < d.toNat := h
  have hd := toNat_lt d
  rw [encode_eq, encode_eq]
  by_cases h1 : c.toNat ≤ 127
  · rw [if_pos h1]
    split
    · exact Before.head hcd [] []
    split
    · exact Before.head (by omega) [] _
    split
    · exact Before.head (by omega) [] _
    · exact Before.head (by omega) [] _
  rw [if_neg h1, if_neg (by omega : ¬ d.toNat ≤ 127)]
  by_cases h2 : c.toNat ≤ 2047
  · rw [if_pos h2]
    split
    · exact two_before hcd
    split
    · exact Before.head (by omega) _ _
    · exact Before.head (by omega) _ _
  rw [if_neg h2, if_neg (by omega : ¬ d.toNat ≤ 2047)]
  by_cases h3 : c.toNat ≤ 65535
  · rw [if_pos h3]
    split
    · exact three_before hcd
    · exact Before.head (by omega) _ _
  · rw [if_neg h3, if_neg (by omega : ¬ d.toNat ≤ 65535)]
    exact four_before hcd

/-! ### Whole strings -/

theorem bytes_lt_of_lt {s t : List Char} (h : s < t) : bytes s < bytes t := by
  induction s generalizing t with
  | nil =>
    cases t with
    | nil => exact absurd h (lt_irrefl _)
    | cons d t =>
      rw [bytes_nil, bytes_cons]
      have hne : encode d ≠ [] := by rw [encode_eq]; split_ifs <;> simp [two, three, four]
      obtain ⟨b, l, hb⟩ := List.exists_cons_of_ne_nil hne
      rw [hb]
      exact List.nil_lt_cons b _
  | cons c s ih =>
    cases t with
    | nil => exact absurd h (List.not_lt_nil _)
    | cons d t =>
      rw [bytes_cons, bytes_cons]
      rcases List.cons_lt_cons_iff.mp h with hcd | ⟨rfl, hst⟩
      · exact (encode_before hcd).append_lt _ _
      · exact List.append_left_lt (ih hst)

/-- Comparing two strings byte by byte is comparing them code point by code point. -/
theorem bytes_lt_iff {s t : List Char} : bytes s < bytes t ↔ s < t := by
  refine ⟨fun h => ?_, bytes_lt_of_lt⟩
  rcases lt_trichotomy s t with hst | rfl | hts
  · exact hst
  · exact absurd h (lt_irrefl _)
  · exact absurd (h.trans (bytes_lt_of_lt hts)) (lt_irrefl _)

theorem bytes_inj {s t : List Char} : bytes s = bytes t ↔ s = t := by
  refine ⟨fun h => ?_, fun h => h ▸ rfl⟩
  rcases lt_trichotomy s t with hst | rfl | hts
  · exact absurd h (bytes_lt_of_lt hst).ne
  · rfl
  · exact absurd h (bytes_lt_of_lt hts).ne'

end Utf8
