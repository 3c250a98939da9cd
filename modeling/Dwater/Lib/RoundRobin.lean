import Mathlib.Data.Int.CardIntervalMod
import Mathlib.Data.List.GetD
import Mathlib.Data.List.Nodup

/-! # Dealing in turn

A list is dealt in turn when its `k`-th entry is the `k`-th of the choices, counted modulo their
number. The counter that starts over at the end of the choices deals so, and after `m` entries
every choice has been made `m / n` times or once more.
-/

set_option autoImplicit false

universe u

variable {α : Type u} {choices dealt : List α} {a : α}

/-- The `k`-th entry is the `k`-th choice, counted modulo the number of choices. -/
def DealtInTurn (choices dealt : List α) : Prop :=
  ∀ k, k < dealt.length → dealt[k]? = choices[k % choices.length]?

theorem dealtInTurn_nil : DealtInTurn choices [] := fun _ hk => nomatch hk

theorem DealtInTurn.concat (h : DealtInTurn choices dealt)
    (ha : choices[dealt.length % choices.length]? = some a) :
    DealtInTurn choices (dealt ++ [a]) := by
  intro k hk
  rw [List.length_append, List.length_singleton] at hk
  rcases Nat.lt_succ_iff_lt_or_eq.mp hk with hlt | rfl
  · rw [List.getElem?_append_left hlt, h k hlt]
  · rw [List.getElem?_concat_length, ha]

/-- A counter that starts over counts modulo the number of choices. -/
theorem wrap_eq_mod {n i k : ℕ} (hi : i = k % n) (hn : 0 < n) :
    (if n ≤ i + 1 then 0 else i + 1) = (k + 1) % n := by
  have hlt : i < n := hi ▸ Nat.mod_lt k hn
  rw [Nat.add_mod, ← hi]
  split
  · next hle =>
    have heq : i + 1 = n := by omega
    rcases Nat.lt_or_ge 1 n with h1 | h1
    · rw [Nat.mod_eq_of_lt h1, heq, Nat.mod_self]
    · have h1' : n = 1 := by omega
      simp [h1', Nat.mod_one]
  · next hle => rw [Nat.mod_eq_of_lt (by omega : 1 < n), Nat.mod_eq_of_lt (by omega)]

variable [DecidableEq α]

theorem DealtInTurn.count_eq (hnodup : choices.Nodup) {v : ℕ} (hv : choices[v]? = some a) :
    DealtInTurn choices dealt →
      dealt.count a = dealt.length.count (· ≡ v [MOD choices.length]) := by
  have hlt : v < choices.length := (List.getElem?_eq_some_iff.mp hv).1
  induction dealt using List.reverseRecOn with
  | nil => simp
  | append_singleton l b ih =>
    intro h
    have hprefix : DealtInTurn choices l := by
      intro k hk
      have hk' := h k (by simpa using Nat.lt_succ_of_lt hk)
      rwa [List.getElem?_append_left hk] at hk'
    have hlast := h l.length (by simp)
    rw [List.getElem?_concat_length] at hlast
    have hiff : b = a ↔ l.length ≡ v [MOD choices.length] := by
      constructor
      · rintro rfl
        have hidx := (List.getElem?_inj (Nat.mod_lt _ (by omega)) hnodup).mp
          (hlast.symm.trans hv.symm)
        rw [Nat.ModEq, hidx, Nat.mod_eq_of_lt hlt]
      · intro hmod
        rw [Nat.ModEq, Nat.mod_eq_of_lt hlt] at hmod
        rw [hmod, hv] at hlast
        exact Option.some.inj hlast
    rw [List.count_append, ih hprefix, List.length_append, List.length_singleton, Nat.count_succ]
    by_cases hb : b = a
    · simp [hb, hiff.mp hb]
    · have hnot : ¬ l.length ≡ v [MOD choices.length] := fun hmod => hb (hiff.mpr hmod)
      simp [hb, hnot]

/-- Every choice is made as often as any other, but for one time. -/
theorem DealtInTurn.count_bounds (h : DealtInTurn choices dealt) (hnodup : choices.Nodup)
    (ha : a ∈ choices) : dealt.length / choices.length ≤ dealt.count a ∧
      dealt.count a ≤ dealt.length / choices.length + 1 := by
  obtain ⟨v, hlt, rfl⟩ := List.mem_iff_getElem.mp ha
  have hv : choices[v]? = some choices[v] := List.getElem?_eq_getElem hlt
  rw [h.count_eq hnodup hv, Nat.count_modEq_card _ (by omega)]
  split <;> omega
