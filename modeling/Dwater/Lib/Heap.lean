import Mathlib.Data.List.Nodup
import Mathlib.Logic.Function.Basic
import Mathlib.Tactic.Common

/-! # A heap of objects

Objects are allocated at addresses that may be used again once the object there has been
deleted. Every object has a serial number, so that it can be told from a later one at the
same address, and the heap records which objects have been deleted. Each object created
is either alive at one address or has been deleted once.
-/

set_option autoImplicit false
universe u v

/--
The objects numbered below `created` are those at the addresses of `cell` and those in `deleted`,
each in one place.
-/
structure Heap.Sound {A : Type u} {T : Type v} (cell : A → Option (ℕ × T)) (created : ℕ)
    (deleted : List ℕ) : Prop where
  cell_lt : ∀ {a x}, cell a = some x → x.1 < created
  cell_inj : ∀ {a b x y}, cell a = some x → cell b = some y → x.1 = y.1 → a = b
  deleted_lt : ∀ {n}, n ∈ deleted → n < created
  deleted_nodup : deleted.Nodup
  dead : ∀ {a x}, cell a = some x → x.1 ∉ deleted
  live_or_deleted : ∀ {n}, n < created → (∃ a v, cell a = some (n, v)) ∨ n ∈ deleted

/-- Objects of type `T` at addresses in `A`. -/
structure Heap (A : Type u) (T : Type v) where
  cell : A → Option (ℕ × T)
  created : ℕ
  deleted : List ℕ
  sound : Heap.Sound cell created deleted

namespace Heap

variable {A : Type u} {T : Type v} [DecidableEq A]

def empty : Heap A T where
  cell _ := none
  created := 0
  deleted := []
  sound := by constructor <;> simp

def get (h : Heap A T) (a : A) : Option T := (h.cell a).map Prod.snd

theorem Sound.new {cell : A → Option (ℕ × T)} {created : ℕ} {deleted : List ℕ}
    (h : Sound cell created deleted) {a : A} (ha : cell a = none) (v : T) :
    Sound (Function.update cell a (some (created, v))) (created + 1) deleted where
  cell_lt {b x} hb := by
    by_cases hab : b = a
    · subst hab
      simp only [Function.update_self, Option.some.injEq] at hb
      simp [← hb]
    · rw [Function.update_of_ne hab] at hb
      exact Nat.lt_succ_of_lt (h.cell_lt hb)
  cell_inj {b c x y} hb hc hxy := by
    by_cases hba : b = a <;> by_cases hca : c = a
    · exact hba.trans hca.symm
    · subst hba
      rw [Function.update_of_ne hca] at hc
      simp only [Function.update_self, Option.some.injEq] at hb
      have := h.cell_lt hc
      simp [← hxy, ← hb] at this
    · subst hca
      rw [Function.update_of_ne hba] at hb
      simp only [Function.update_self, Option.some.injEq] at hc
      have := h.cell_lt hb
      simp [hxy, ← hc] at this
    · rw [Function.update_of_ne hba] at hb
      rw [Function.update_of_ne hca] at hc
      exact h.cell_inj hb hc hxy
  deleted_lt hn := Nat.lt_succ_of_lt (h.deleted_lt hn)
  deleted_nodup := h.deleted_nodup
  dead {b x} hb := by
    by_cases hba : b = a
    · subst hba
      simp only [Function.update_self, Option.some.injEq] at hb
      rw [← hb]
      exact fun hd => Nat.lt_irrefl _ (h.deleted_lt hd)
    · rw [Function.update_of_ne hba] at hb
      exact h.dead hb
  live_or_deleted {n} hn := by
    rcases Nat.lt_succ_iff_lt_or_eq.mp hn with hn | rfl
    · rcases h.live_or_deleted hn with ⟨b, w, hb⟩ | hd
      · have hba : b ≠ a := by
          rintro rfl
          simp [ha] at hb
        exact .inl ⟨b, w, by rw [Function.update_of_ne hba, hb]⟩
      · exact .inr hd
    · exact .inl ⟨a, v, by simp⟩

theorem Sound.set {cell : A → Option (ℕ × T)} {created : ℕ} {deleted : List ℕ}
    (h : Sound cell created deleted) {a : A} {n : ℕ} {w : T} (ha : cell a = some (n, w))
    (v : T) : Sound (Function.update cell a (some (n, v))) created deleted := by
  have old : ∀ {b x}, Function.update cell a (some (n, v)) b = some x →
      ∃ y, cell b = some y ∧ y.1 = x.1 := by
    intro b x hb
    by_cases hba : b = a
    · subst hba
      simp only [Function.update_self, Option.some.injEq] at hb
      exact ⟨(n, w), ha, by simp [← hb]⟩
    · rw [Function.update_of_ne hba] at hb
      exact ⟨x, hb, rfl⟩
  constructor
  · intro b x hb
    obtain ⟨y, hy, he⟩ := old hb
    exact he ▸ h.cell_lt hy
  · intro b c x y hb hc hxy
    obtain ⟨x', hx', hx⟩ := old hb
    obtain ⟨y', hy', hy⟩ := old hc
    exact h.cell_inj hx' hy' (hx.trans (hxy.trans hy.symm))
  · exact h.deleted_lt
  · exact h.deleted_nodup
  · intro b x hb
    obtain ⟨y, hy, he⟩ := old hb
    exact he ▸ h.dead hy
  · intro m hm
    rcases h.live_or_deleted hm with ⟨b, u, hb⟩ | hd
    · by_cases hba : b = a
      · subst hba
        rw [ha] at hb
        cases hb
        exact .inl ⟨b, v, by simp⟩
      · exact .inl ⟨b, u, by rw [Function.update_of_ne hba, hb]⟩
    · exact .inr hd

theorem Sound.delete {cell : A → Option (ℕ × T)} {created : ℕ} {deleted : List ℕ}
    (h : Sound cell created deleted) {a : A} {n : ℕ} {w : T} (ha : cell a = some (n, w)) :
    Sound (Function.update cell a none) created (n :: deleted) := by
  have old : ∀ {b x}, Function.update cell a none b = some x → b ≠ a ∧ cell b = some x := by
    intro b x hb
    by_cases hba : b = a
    · subst hba
      simp at hb
    · rw [Function.update_of_ne hba] at hb
      exact ⟨hba, hb⟩
  constructor
  · exact fun hb => h.cell_lt (old hb).2
  · exact fun hb hc => h.cell_inj (old hb).2 (old hc).2
  · intro m hm
    rcases List.mem_cons.mp hm with rfl | hm
    · exact h.cell_lt ha
    · exact h.deleted_lt hm
  · exact List.nodup_cons.mpr ⟨h.dead ha, h.deleted_nodup⟩
  · intro b x hb hm
    rcases List.mem_cons.mp hm with hm | hm
    · exact (old hb).1 (h.cell_inj (old hb).2 ha hm)
    · exact h.dead (old hb).2 hm
  · intro m hm
    rcases h.live_or_deleted hm with ⟨b, u, hb⟩ | hd
    · by_cases hba : b = a
      · subst hba
        rw [ha] at hb
        cases hb
        exact .inr List.mem_cons_self
      · exact .inl ⟨b, u, by rw [Function.update_of_ne hba, hb]⟩
    · exact .inr (List.mem_cons_of_mem _ hd)

def new (h : Heap A T) (a : A) (v : T) : Heap A T :=
  if ha : h.cell a = none then
    { cell := Function.update h.cell a (some (h.created, v))
      created := h.created + 1
      deleted := h.deleted
      sound := h.sound.new ha v }
  else h

def set (h : Heap A T) (a : A) (v : T) : Heap A T :=
  match ha : h.cell a with
  | some (n, _) =>
    { cell := Function.update h.cell a (some (n, v))
      created := h.created
      deleted := h.deleted
      sound := h.sound.set ha v }
  | none => h

def delete (h : Heap A T) (a : A) : Heap A T :=
  match ha : h.cell a with
  | some (n, _) =>
    { cell := Function.update h.cell a none
      created := h.created
      deleted := n :: h.deleted
      sound := h.sound.delete ha }
  | none => h

omit [DecidableEq A] in
theorem get_eq_none {h : Heap A T} {a : A} : h.get a = none ↔ h.cell a = none := by
  simp [get]

omit [DecidableEq A] in
theorem get_eq_some {h : Heap A T} {a : A} {v : T} :
    h.get a = some v ↔ ∃ n, h.cell a = some (n, v) := by
  simp [get]

theorem cell_new {h : Heap A T} {a : A} (ha : h.get a = none) (v : T) :
    (h.new a v).cell = Function.update h.cell a (some (h.created, v)) := by
  simp [new, get_eq_none.mp ha]

theorem cell_new_of_ne {h : Heap A T} {a b : A} (ha : h.get a = none) (hb : b ≠ a) (v : T) :
    (h.new a v).cell b = h.cell b := by
  rw [cell_new ha, Function.update_of_ne hb]

theorem created_new {h : Heap A T} {a : A} (ha : h.get a = none) (v : T) :
    (h.new a v).created = h.created + 1 := by
  simp [new, get_eq_none.mp ha]

theorem cell_set {h : Heap A T} {a : A} {n : ℕ} {w : T} (ha : h.cell a = some (n, w)) (v : T) :
    (h.set a v).cell = Function.update h.cell a (some (n, v)) := by
  unfold set
  split
  · next m x hm =>
    rw [ha] at hm
    cases hm
    rfl
  · next hm => simp [ha] at hm

@[simp] theorem created_set (h : Heap A T) (a : A) (v : T) : (h.set a v).created = h.created := by
  unfold set
  split <;> rfl

theorem cell_delete (h : Heap A T) (a : A) :
    (h.delete a).cell = Function.update h.cell a none := by
  unfold delete
  split
  · rfl
  · next hm => rw [← hm, Function.update_eq_self]

@[simp] theorem created_delete (h : Heap A T) (a : A) : (h.delete a).created = h.created := by
  unfold delete
  split <;> rfl

theorem get_new {h : Heap A T} {a : A} (ha : h.get a = none) (v : T) :
    (h.new a v).get = Function.update h.get a (some v) := by
  funext b
  by_cases hb : b = a
  · subst hb
    simp [get, cell_new ha]
  · simp [get, cell_new ha, Function.update_of_ne hb]

theorem get_set {h : Heap A T} {a : A} {w : T} (ha : h.get a = some w) (v : T) :
    (h.set a v).get = Function.update h.get a (some v) := by
  funext b
  obtain ⟨n, hn⟩ := get_eq_some.mp ha
  by_cases hb : b = a
  · subst hb
    simp [get, cell_set hn]
  · simp [get, cell_set hn, Function.update_of_ne hb]

theorem get_delete (h : Heap A T) (a : A) :
    (h.delete a).get = Function.update h.get a none := by
  funext b
  by_cases hb : b = a
  · subst hb
    simp [get, cell_delete]
  · simp [get, cell_delete, Function.update_of_ne hb]

end Heap
