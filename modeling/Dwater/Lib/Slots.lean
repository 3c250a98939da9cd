import Mathlib.Data.Int.Order.Basic
import Mathlib.Data.List.Basic
import Mathlib.Logic.Function.Basic
import Mathlib.Tactic.Common

/-! # A table of slots without gaps

The live keys hold the slots of a list, one each, and a position tells which. A new key
takes a slot at the end. A key gives its slot up by moving the last slot into it, so that
the key of the last slot changes its position.
-/

set_option autoImplicit false

universe u v

/-- The live keys and the slots correspond one to one. -/
structure Slotted {κ : Type u} {β : Type v} (slots : List β) (pos : κ → ℤ) (live : κ → Prop) :
    Prop where
  pos_nonneg : ∀ {c}, live c → 0 ≤ pos c
  pos_lt : ∀ {c}, live c → pos c < slots.length
  pos_inj : ∀ {c d}, live c → live d → pos c = pos d → c = d
  pos_surj : ∀ {i : ℕ}, i < slots.length → ∃ c, live c ∧ pos c = i

namespace Slotted

variable {κ : Type u} {β : Type v} {slots : List β} {pos : κ → ℤ} {live : κ → Prop} {c d : κ}

def slot (slots : List β) (i : ℤ) : Option β := slots[i.toNat]?

theorem exists_slot (h : Slotted slots pos live) (hc : live c) :
    ∃ b, slot slots (pos c) = some b := by
  have hlt : (pos c).toNat < slots.length := by
    have h₀ := h.pos_nonneg hc
    have h₁ := h.pos_lt hc
    omega
  exact ⟨slots[(pos c).toNat], List.getElem?_eq_getElem hlt⟩

theorem toNat_ne (h : Slotted slots pos live) (hc : live c) (hd : live d) (hne : d ≠ c) :
    (pos d).toNat ≠ (pos c).toNat := by
  intro he
  have h₀ := h.pos_nonneg hc
  have h₁ := h.pos_nonneg hd
  exact hne (h.pos_inj hd hc (by omega))

theorem mem_iff (h : Slotted slots pos live) {b : β} :
    b ∈ slots ↔ ∃ c, live c ∧ slot slots (pos c) = some b := by
  constructor
  · intro hb
    obtain ⟨i, hi, rfl⟩ := List.getElem_of_mem hb
    obtain ⟨c, hc, hp⟩ := h.pos_surj hi
    refine ⟨c, hc, ?_⟩
    rw [slot, hp, Int.toNat_natCast, List.getElem?_eq_getElem hi]
  · rintro ⟨c, _, hs⟩
    exact List.mem_of_getElem? hs

theorem nil : Slotted ([] : List β) pos fun _ => False where
  pos_nonneg := False.elim
  pos_lt := False.elim
  pos_inj := fun hc => hc.elim
  pos_surj := by simp

theorem set (h : Slotted slots pos live) (i : ℤ) (b : β) :
    Slotted (slots.set i.toNat b) pos live where
  pos_nonneg := h.pos_nonneg
  pos_lt hc := by simpa using h.pos_lt hc
  pos_inj := h.pos_inj
  pos_surj hi := h.pos_surj (by simpa using hi)

theorem slot_set_self (h : Slotted slots pos live) (hc : live c) (b : β) :
    slot (slots.set (pos c).toNat b) (pos c) = some b := by
  obtain ⟨b', hb⟩ := h.exists_slot hc
  have hlt : (pos c).toNat < slots.length := (List.getElem?_eq_some_iff.mp hb).1
  rw [slot, List.getElem?_set_self hlt]

theorem slot_set_other (h : Slotted slots pos live) (hc : live c) (hd : live d) (hne : d ≠ c)
    (b : β) : slot (slots.set (pos c).toNat b) (pos d) = slot slots (pos d) := by
  rw [slot, List.getElem?_set_ne (h.toNat_ne hc hd hne).symm, slot]

variable {pos' : κ → ℤ} {live' : κ → Prop}

section Push

variable (h : Slotted slots pos live) (hc : ¬ live c) (hlive : ∀ d, live' d ↔ live d ∨ d = c)
  (hself : pos' c = slots.length) (hother : ∀ d, d ≠ c → pos' d = pos d)

include h hc hlive hself hother

theorem push (b : β) : Slotted (slots ++ [b]) pos' live' := by
  have hold {d : κ} (hd : live d) : pos' d = pos d := hother d fun he => hc (he ▸ hd)
  have hcases {d : κ} (hd : live' d) : live d ∧ pos' d = pos d ∨ d = c ∧ pos' d = slots.length := by
    rcases (hlive d).mp hd with hd | rfl
    · exact .inl ⟨hd, hold hd⟩
    · exact .inr ⟨rfl, hself⟩
  refine ⟨?_, ?_, ?_, ?_⟩
  · intro d hd
    rcases hcases hd with ⟨hd, hp⟩ | ⟨_, hp⟩
    · exact hp ▸ h.pos_nonneg hd
    · exact hp ▸ Int.natCast_nonneg _
  · intro d hd
    rw [List.length_append, List.length_singleton]
    rcases hcases hd with ⟨hd, hp⟩ | ⟨_, hp⟩
    · have hlt := h.pos_lt hd
      omega
    · omega
  · intro d e hd he hp
    rcases hcases hd with ⟨hd, hpd⟩ | ⟨rfl, hpd⟩ <;> rcases hcases he with ⟨he, hpe⟩ | ⟨rfl, hpe⟩
    · exact h.pos_inj hd he (by omega)
    · have hlt := h.pos_lt hd
      omega
    · have hlt := h.pos_lt he
      omega
    · rfl
  · intro i hi
    rw [List.length_append, List.length_singleton] at hi
    rcases Nat.lt_succ_iff_lt_or_eq.mp hi with hi | rfl
    · obtain ⟨d, hd, hp⟩ := h.pos_surj hi
      exact ⟨d, (hlive d).mpr (.inl hd), (hold hd).trans hp⟩
    · exact ⟨c, (hlive c).mpr (.inr rfl), hself⟩

omit h hc hlive hother in
theorem slot_push_self (b : β) : slot (slots ++ [b]) (pos' c) = some b := by
  rw [slot, hself, Int.toNat_natCast]
  simp

omit hlive hself in
theorem slot_push_other (hd : live d) (b : β) :
    slot (slots ++ [b]) (pos' d) = slot slots (pos d) := by
  have hne : d ≠ c := fun he => hc (he ▸ hd)
  obtain ⟨b', hb⟩ := h.exists_slot hd
  have hlt : (pos d).toNat < slots.length := (List.getElem?_eq_some_iff.mp hb).1
  rw [slot, hother d hne, List.getElem?_append_left hlt, slot]

end Push

section Pop

variable (h : Slotted slots pos live) (hc : live c) (hlive : ∀ d, live' d ↔ live d ∧ d ≠ c)
  (hlast : pos c = slots.length - 1)

include h hc hlast

theorem pos_lt_last (hd : live d) (hne : d ≠ c) : pos d < slots.length - 1 := by
  have hlt := h.pos_lt hd
  have hne' : pos d ≠ pos c := fun he => hne (h.pos_inj hd hc he)
  omega

theorem slot_pop (hd : live d) (hne : d ≠ c) :
    slot slots.dropLast (pos d) = slot slots (pos d) := by
  have hlt := h.pos_lt_last hc hlast hd hne
  have h₀ := h.pos_nonneg hd
  rw [slot, List.getElem?_dropLast, if_pos (by omega), slot]

include hlive

theorem pop : Slotted slots.dropLast pos live' where
  pos_nonneg hd := h.pos_nonneg ((hlive _).mp hd).1
  pos_lt {d} hd := by
    obtain ⟨hd, hne⟩ := (hlive d).mp hd
    have hlt := h.pos_lt_last hc hlast hd hne
    have h₀ := h.pos_nonneg hd
    rw [List.length_dropLast]
    omega
  pos_inj hd he := h.pos_inj ((hlive _).mp hd).1 ((hlive _).mp he).1
  pos_surj {i} hi := by
    rw [List.length_dropLast] at hi
    obtain ⟨d, hd, hp⟩ := h.pos_surj (show i < slots.length by omega)
    refine ⟨d, (hlive d).mpr ⟨hd, ?_⟩, hp⟩
    rintro rfl
    omega

end Pop

section SwapPop

variable (h : Slotted slots pos live) (hc : live c) (hd : live d) (hne : d ≠ c)
  (hlive : ∀ e, live' e ↔ live e ∧ e ≠ c) (hlast : pos d = slots.length - 1)
  (hself : pos' d = pos c) (hother : ∀ e, e ≠ d → pos' e = pos e)
  {last : β} (hs : slot slots (pos d) = some last)

include h hc hd hne hlast

theorem pos_lt_of_last : pos c < slots.length - 1 :=
  h.pos_lt_last hd hlast hc hne.symm

include hself hother hs

theorem slot_swapPop {e : κ} (he : live e) (hec : e ≠ c) :
    slot (slots.set (pos c).toNat last).dropLast (pos' e) = slot slots (pos e) := by
  have hc₀ := h.pos_nonneg hc
  have hc₁ := h.pos_lt_of_last hc hd hne hlast
  by_cases hed : e = d
  · subst hed
    rw [slot, hself, List.getElem?_dropLast, if_pos (by rw [List.length_set]; omega),
      List.getElem?_set_self (by omega), hs]
  · have he₁ := h.pos_lt_last hd hlast he hed
    have he₀ := h.pos_nonneg he
    rw [slot, hother e hed, List.getElem?_dropLast, if_pos (by rw [List.length_set]; omega)]
    exact h.slot_set_other hc he hec last

include hlive
omit hs

theorem swapPop : Slotted (slots.set (pos c).toNat last).dropLast pos' live' := by
  have hcases {e : κ} (he : live' e) : live e ∧ e ≠ c ∧
      (e = d ∧ pos' e = pos c ∨ e ≠ d ∧ pos' e = pos e ∧ pos e < slots.length - 1) := by
    obtain ⟨he, hec⟩ := (hlive e).mp he
    refine ⟨he, hec, ?_⟩
    by_cases hed : e = d
    · exact .inl ⟨hed, hed ▸ hself⟩
    · exact .inr ⟨hed, hother e hed, h.pos_lt_last hd hlast he hed⟩
  have hc₀ := h.pos_nonneg hc
  have hc₁ := h.pos_lt_of_last hc hd hne hlast
  refine ⟨?_, ?_, ?_, ?_⟩
  · intro e he
    obtain ⟨he, _, ⟨rfl, hp⟩ | ⟨_, hp, _⟩⟩ := hcases he
    · exact hp ▸ hc₀
    · exact hp ▸ h.pos_nonneg he
  · intro e he
    rw [List.length_dropLast, List.length_set]
    obtain ⟨_, _, ⟨rfl, hp⟩ | ⟨_, hp, hlt⟩⟩ := hcases he <;> omega
  · intro e f he hf hp
    obtain ⟨he, hec, ⟨rfl, hpe⟩ | ⟨_, hpe, _⟩⟩ := hcases he <;>
      obtain ⟨hf, hfc, ⟨rfl, hpf⟩ | ⟨_, hpf, _⟩⟩ := hcases hf
    · rfl
    · exact absurd (h.pos_inj hf hc (by omega)) hfc
    · exact absurd (h.pos_inj he hc (by omega)) hec
    · exact h.pos_inj he hf (by omega)
  · intro i hi
    rw [List.length_dropLast, List.length_set] at hi
    obtain ⟨e, he, hp⟩ := h.pos_surj (show i < slots.length by omega)
    by_cases hec : e = c
    · subst hec
      exact ⟨d, (hlive d).mpr ⟨hd, hne⟩, hself.trans hp⟩
    · have hed : e ≠ d := by
        rintro rfl
        omega
      exact ⟨e, (hlive e).mpr ⟨he, hec⟩, (hother e hed).trans hp⟩

end SwapPop

end Slotted
