import Mathlib.Data.List.Basic
import Mathlib.Data.List.TakeWhile
import Dwater.Net.Http.HttpRequest

/-! # The header map

`headers_` is a `std::map`: its pairs stand in ascending order of their names, so that each
name has one value, the last that was set. A value is stored without the white space around it.
-/

set_option autoImplicit false
namespace Dwater

namespace HeaderMap

variable {field name value : List Byte} {m : HeaderMap}

def Sorted (m : HeaderMap) : Prop := m.Pairwise fun a b => a.1 < b.1

theorem lookup_cons_self (name value : List Byte) (m : HeaderMap) :
    List.lookup name ((name, value) :: m) = some value := by
  simp

theorem lookup_cons_of_ne (h : name ≠ field) (value : List Byte) (m : HeaderMap) :
    List.lookup name ((field, value) :: m) = m.lookup name := by
  rw [List.lookup_cons, beq_false_of_ne h]

theorem lookup_set (field value name : List Byte) (m : HeaderMap) :
    (m.set field value).lookup name = if name = field then some value else m.lookup name := by
  induction m with
  | nil =>
    rw [HeaderMap.set]
    by_cases hname : name = field
    · rw [hname, lookup_cons_self, if_pos rfl]
    · rw [lookup_cons_of_ne hname, if_neg hname]
  | cons head rest ih =>
    obtain ⟨key, old⟩ := head
    rw [HeaderMap.set]
    by_cases hname : name = field
    · rw [if_pos hname] at ih ⊢
      subst hname
      split
      · exact lookup_cons_self _ _ _
      · next hkey =>
        split
        · exact lookup_cons_self _ _ _
        · rw [lookup_cons_of_ne hkey, ih]
    · rw [if_neg hname] at ih ⊢
      split
      · next hkey =>
        subst hkey
        rw [lookup_cons_of_ne hname, lookup_cons_of_ne hname]
      · split
        · exact lookup_cons_of_ne hname _ _
        · rw [List.lookup_cons, List.lookup_cons, ih]

theorem mem_of_mem_set {entry : List Byte × List Byte} (h : entry ∈ m.set field value) :
    entry = (field, value) ∨ entry ∈ m := by
  induction m with
  | nil => exact .inl (List.mem_singleton.mp h)
  | cons head rest ih =>
    obtain ⟨key, old⟩ := head
    rw [HeaderMap.set] at h
    split at h
    · rcases List.mem_cons.mp h with rfl | h
      · exact .inl rfl
      · exact .inr (List.mem_cons_of_mem _ h)
    · split at h
      · rcases List.mem_cons.mp h with rfl | h
        · exact .inl rfl
        · exact .inr h
      · rcases List.mem_cons.mp h with rfl | h
        · exact .inr List.mem_cons_self
        · rcases ih h with rfl | h
          · exact .inl rfl
          · exact .inr (List.mem_cons_of_mem _ h)

theorem Sorted.set (h : m.Sorted) (field value : List Byte) : Sorted (m.set field value) := by
  induction m with
  | nil => exact List.pairwise_singleton _ _
  | cons head rest ih =>
    obtain ⟨key, old⟩ := head
    obtain ⟨hhead, hrest⟩ := List.pairwise_cons.mp h
    rw [HeaderMap.set]
    split
    · next hkey =>
      subst hkey
      exact List.pairwise_cons.mpr ⟨hhead, hrest⟩
    · next hkey =>
      split
      · next hlt =>
        refine List.pairwise_cons.mpr ⟨fun entry hentry => ?_, h⟩
        rcases List.mem_cons.mp hentry with rfl | hentry
        · exact hlt
        · exact List.lt_trans hlt (hhead entry hentry)
      · next hlt =>
        have hgt : key < field := by grind
        refine List.pairwise_cons.mpr ⟨fun entry hentry => ?_, ih hrest⟩
        rcases mem_of_mem_set hentry with rfl | hentry
        · exact hgt
        · exact hhead entry hentry

theorem set_last (h : ∀ entry ∈ m, entry.1 < field) (value : List Byte) :
    m.set field value = m ++ [(field, value)] := by
  induction m with
  | nil => rfl
  | cons head rest ih =>
    obtain ⟨key, old⟩ := head
    have hlt : key < field := h _ List.mem_cons_self
    have hne : field ≠ key := by
      rintro rfl
      exact List.lt_irrefl _ hlt
    have hnot : ¬ field < key := fun hgt => List.lt_irrefl _ (List.lt_trans hlt hgt)
    rw [HeaderMap.set, if_neg hne, if_neg hnot,
      ih fun entry hentry => h entry (List.mem_cons_of_mem _ hentry)]
    rfl

theorem foldl_set_of_sorted {acc : HeaderMap} (h : Sorted (acc ++ m)) :
    m.foldl (fun m entry => m.set entry.1 entry.2) acc = acc ++ m := by
  induction m generalizing acc with
  | nil => simp
  | cons head rest ih =>
    have hlast : ∀ entry ∈ acc, entry.1 < head.1 := fun entry hentry =>
      (List.pairwise_append.mp h).2.2 entry hentry head List.mem_cons_self
    rw [List.foldl_cons, set_last hlast, ih]
    · rw [List.append_assoc]
      rfl
    · rw [List.append_assoc]
      exact h

def weight (m : HeaderMap) : ℕ := (m.map fun entry => entry.1.length + entry.2.length).sum

@[simp] theorem weight_cons (entry : List Byte × List Byte) (m : HeaderMap) :
    weight (entry :: m) = entry.1.length + entry.2.length + weight m := by
  simp [weight]

theorem weight_set_le (field value : List Byte) (m : HeaderMap) :
    weight (m.set field value) ≤ field.length + value.length + weight m := by
  induction m with
  | nil => exact le_of_eq (weight_cons _ _)
  | cons head rest ih =>
    obtain ⟨key, old⟩ := head
    rw [HeaderMap.set]
    split
    · simp only [weight_cons]
      omega
    · split
      · simp only [weight_cons]
        omega
      · simp only [weight_cons]
        omega

theorem weight_foldl_set_le (entries : List (List Byte × List Byte)) (m : HeaderMap) :
    weight (entries.foldl (fun m entry => m.set entry.1 entry.2) m) ≤
      weight m + weight entries := by
  induction entries generalizing m with
  | nil => exact Nat.le_add_right _ _
  | cons entry entries ih =>
    have hset := weight_set_le entry.1 entry.2 m
    have hrest := ih (m.set entry.1 entry.2)
    rw [List.foldl_cons, weight_cons]
    omega

theorem weight_filter_le (p : List Byte × List Byte → Bool) (m : HeaderMap) :
    weight (m.filter p) ≤ weight m := by
  induction m with
  | nil => exact le_rfl
  | cons entry m ih =>
    rw [List.filter_cons, weight_cons]
    split
    · rw [weight_cons]
      omega
    · omega

end HeaderMap

namespace RequestFields

/-- `v` is `value` without the white space at its ends. -/
structure Stripped (value v : List Byte) : Prop where
  surrounded : ∃ leading trailing, value = leading ++ v ++ trailing ∧
    (∀ b ∈ leading, isspace b = true) ∧ ∀ b ∈ trailing, isspace b = true
  head_kept : ∀ b ∈ v.head?, isspace b = false
  last_kept : ∀ b ∈ v.getLast?, isspace b = false

theorem head?_dropWhile {b : Byte} {l : List Byte} (h : b ∈ (l.dropWhile isspace).head?) :
    isspace b = false := by
  have hnot := List.head?_dropWhile_not isspace l
  rw [Option.mem_def.mp h] at hnot
  simpa using hnot

theorem trim_stripped (value : List Byte) : Stripped value (trim value) := by
  let kept := value.dropWhile isspace
  have hsplit : kept = (kept.reverse.dropWhile isspace).reverse ++
      (kept.reverse.takeWhile isspace).reverse := by
    rw [← List.reverse_append, List.takeWhile_append_dropWhile, List.reverse_reverse]
  constructor
  · refine ⟨value.takeWhile isspace, (kept.reverse.takeWhile isspace).reverse, ?_, ?_, ?_⟩
    · rw [List.append_assoc, trim, ← hsplit, List.takeWhile_append_dropWhile]
    · intro b hb
      exact List.mem_takeWhile_imp hb
    · intro b hb
      exact List.mem_takeWhile_imp (List.mem_reverse.mp hb)
  · intro b hb
    refine head?_dropWhile (l := value) ?_
    change b ∈ kept.head?
    rw [hsplit, List.head?_append]
    have hb' : (kept.reverse.dropWhile isspace).reverse.head? = some b := hb
    rw [hb']
    rfl
  · intro b hb
    rw [trim, List.getLast?_reverse] at hb
    exact head?_dropWhile hb

end RequestFields

end Dwater
