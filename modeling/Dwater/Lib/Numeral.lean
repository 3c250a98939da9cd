import Mathlib.Data.Nat.Digits.Lemmas
import Mathlib.Tactic.Common

/-! # Numerals

The numeral of a natural number in a base lists its digits with the most significant one first and
without zeros in front. Every number has exactly one numeral, and the numeral can be read back. The
digits of a numeral are found from the least significant one on by dividing until nothing is left.
-/

set_option autoImplicit false
namespace Numeral

universe u

variable {σ : Type u} {b n k : ℕ} {ds : List ℕ} {sym : ℕ → σ} {text : List σ}

/-- The digits of `n` in the base `b`, the least significant one first; zero has one digit. -/
structure Canonical (b : ℕ) (ds : List ℕ) (n : ℕ) : Prop where
  lt_base : ∀ d ∈ ds, d < b
  ne_nil : ds ≠ []
  no_leading : ds.getLast? = some 0 → ds = [0]
  value : Nat.ofDigits b ds = n

/-- The symbols `sym` of the digits of `n`, the most significant one first. -/
def IsNumeral (b : ℕ) (sym : ℕ → σ) (text : List σ) (n : ℕ) : Prop :=
  ∃ ds, Canonical b ds n ∧ text = (ds.map sym).reverse

/-- The number that a text stands for, when `val` tells the digits of the symbols. -/
def read (b : ℕ) (val : σ → ℕ) (text : List σ) : ℕ :=
  text.foldl (fun n c => val c + b * n) 0

def digits (b n : ℕ) : List ℕ := if n = 0 then [0] else Nat.digits b n

theorem digits_eq (hb : 1 < b) (n : ℕ) :
    digits b n = n % b :: if n / b = 0 then [] else digits b (n / b) := by
  unfold digits
  rcases Nat.eq_zero_or_pos n with rfl | hn
  · simp
  · rw [if_neg hn.ne', Nat.digits_def' hb hn]
    split
    · next hzero => rw [hzero, Nat.digits_zero]
    · rfl

theorem canonical_digits (hb : 1 < b) (n : ℕ) : Canonical b (digits b n) n := by
  unfold digits
  rcases Nat.eq_zero_or_pos n with rfl | hn
  · rw [if_pos rfl]
    refine ⟨fun d hd => ?_, List.cons_ne_nil 0 [], fun _ => rfl, Nat.ofDigits_singleton⟩
    rw [List.mem_singleton.mp hd]
    exact Nat.zero_lt_of_lt hb
  · rw [if_neg hn.ne']
    have hne : Nat.digits b n ≠ [] := Nat.digits_ne_nil_iff_ne_zero.mpr hn.ne'
    refine ⟨fun d hd => Nat.digits_lt_base hb hd, hne, fun hlast => ?_, Nat.ofDigits_digits b n⟩
    rw [List.getLast?_eq_some_getLast hne] at hlast
    exact absurd (Option.some.inj hlast) (Nat.getLast_digit_ne_zero b hn.ne')

theorem canonical_iff (hb : 1 < b) : Canonical b ds n ↔ ds = digits b n := by
  constructor
  · rintro ⟨hlt, hne, hlead, rfl⟩
    by_cases hlast : ds.getLast hne = 0
    · have hzero := hlead (by rw [List.getLast?_eq_some_getLast hne, hlast])
      rw [hzero, Nat.ofDigits_singleton]
      rfl
    · have hdigits := Nat.digits_ofDigits b hb ds hlt fun _ => hlast
      have hpos : Nat.ofDigits b ds ≠ 0 := by
        rw [← Nat.digits_ne_nil_iff_ne_zero, hdigits]
        exact hne
      rw [digits, if_neg hpos, hdigits]
  · rintro rfl
    exact canonical_digits hb n

theorem isNumeral_iff (hb : 1 < b) :
    IsNumeral b sym text n ↔ text = ((digits b n).map sym).reverse := by
  simp only [IsNumeral, canonical_iff hb, exists_eq_left]

theorem IsNumeral.unique (hb : 1 < b) {text' : List σ} (h : IsNumeral b sym text n)
    (h' : IsNumeral b sym text' n) : text = text' :=
  ((isNumeral_iff hb).mp h).trans ((isNumeral_iff hb).mp h').symm

theorem IsNumeral.ne_nil (h : IsNumeral b sym text n) : text ≠ [] := by
  obtain ⟨ds, hds, rfl⟩ := h
  simpa using hds.ne_nil

theorem IsNumeral.mem (h : IsNumeral b sym text n) {c : σ} (hc : c ∈ text) :
    ∃ d < b, c = sym d := by
  obtain ⟨ds, hds, rfl⟩ := h
  rw [List.mem_reverse, List.mem_map] at hc
  obtain ⟨d, hd, rfl⟩ := hc
  exact ⟨d, hds.lt_base d hd, rfl⟩

theorem IsNumeral.read_eq {val : σ → ℕ} (hval : ∀ d < b, val (sym d) = d)
    (h : IsNumeral b sym text n) : read b val text = n := by
  obtain ⟨ds, hds, rfl⟩ := h
  have hid : ∀ d ∈ ds, (val ∘ sym) d = id d := fun d hd => hval d (hds.lt_base d hd)
  calc read b val (ds.map sym).reverse
      = (ds.map sym).foldr (fun c n => val c + b * n) 0 := List.foldl_reverse
    _ = Nat.ofDigits b ((ds.map sym).map val) := by
        simp only [Nat.ofDigits_eq_foldr, List.foldr_map, Nat.cast_id]
    _ = n := by rw [List.map_map, List.map_congr_left hid, List.map_id, hds.value]

theorem IsNumeral.length_le (hb : 1 < b) (hk : 0 < k) (h : IsNumeral b sym text n)
    (hn : n < b ^ k) : text.length ≤ k := by
  rw [(isNumeral_iff hb).mp h, List.length_reverse, List.length_map, digits]
  split
  · exact hk
  · exact (Nat.digits_length_le_iff hb n).mpr hn

theorem IsNumeral.map {τ : Type*} (f : σ → τ) (h : IsNumeral b sym text n) :
    IsNumeral b (f ∘ sym) (text.map f) n := by
  obtain ⟨ds, hds, rfl⟩ := h
  exact ⟨ds, hds, by rw [List.map_reverse, List.map_map]⟩

theorem IsNumeral.congr {sym' : ℕ → σ} (hsym : ∀ d < b, sym d = sym' d)
    (h : IsNumeral b sym text n) : IsNumeral b sym' text n := by
  obtain ⟨ds, hds, rfl⟩ := h
  refine ⟨ds, hds, ?_⟩
  rw [List.map_congr_left fun d hd => hsym d (hds.lt_base d hd)]

theorem isNumeral_toDigits (hb : 1 < b) (n : ℕ) :
    IsNumeral b Nat.digitChar (Nat.toDigits b n) n := by
  rw [isNumeral_iff hb]
  induction n using Nat.strong_induction_on with
  | _ n ih =>
    rw [digits_eq hb, List.map_cons, List.reverse_cons]
    rcases Nat.lt_or_ge n b with hlt | hge
    · rw [Nat.toDigits_of_lt_base hlt, if_pos (Nat.div_eq_of_lt hlt), Nat.mod_eq_of_lt hlt]
      rfl
    · have hquot : n / b ≠ 0 := (Nat.div_pos hge (Nat.zero_lt_of_lt hb)).ne'
      have hless : n / b < n := Nat.div_lt_self (by omega) hb
      rw [Nat.toDigits_of_base_le hb hge, if_neg hquot, ih (n / b) hless]

end Numeral
