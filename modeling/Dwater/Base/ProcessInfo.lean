import Dwater.Base.Types
import Dwater.Lib.Search

/-! # The name of a process

A line of `/proc/self/stat` has the name of the process between its first `(` and its last `)`,
and the name itself may have both. `Procname` looks for the first `)`, and where it finds no
name it returns a `StringPiece` of length one. It returns the name exactly when the only `)` of the
line ends it.
-/

set_option autoImplicit false
namespace Dwater

namespace StringPiece

/-- `StringPiece()`, with a null pointer and the length 1. -/
def new : StringPiece := ⟨[], 1⟩

/-- `AsString`: nothing can be read through a null pointer. -/
def asString (str : StringPiece) : Except Fault (List Byte) :=
  if toSizeT str.length ≤ str.ptr.length then .ok (str.ptr.take (toSizeT str.length))
  else .error (.outOfBounds .string_piece_h 150)

def Holds (str : StringPiece) (bytes : List Byte) : Prop :=
  str.length = bytes.length ∧ bytes <+: str.ptr

end StringPiece

namespace ProcessInfo

def leftParen : Byte := 40

def rightParen : Byte := 41

def find (stat : List Byte) (c : Byte) : Option ℕ :=
  (Search.cut c stat).map fun parts => parts.1.length

def procname (stat : List Byte) : StringPiece :=
  match find stat leftParen, find stat rightParen with
  | some lp, some rp =>
    if lp < rp then ⟨stat.drop (lp + 1), toInt (rp - lp - 1)⟩ else .new
  | _, _ => .new

/-- The line has the name between its first `(` and its last `)`. -/
structure Names (stat p name rest : List Byte) : Prop where
  stat_eq : stat = p ++ leftParen :: (name ++ rightParen :: rest)
  left_notMem : leftParen ∉ p
  right_notMem : rightParen ∉ rest

/-- The name is found, and the piece is empty if there is none. -/
def Found (stat : List Byte) : Prop :=
  (∀ p name rest, Names stat p name rest → (procname stat).Holds name) ∧
  ((∀ p name rest, ¬ Names stat p name rest) →
    (procname stat).length = 0 ∧ (procname stat).asString = .ok [])

variable {stat p name rest : List Byte}

theorem find_eq_of_cut {c : Byte} {before after : List Byte}
    (h : Search.cut c stat = some (before, after)) : find stat c = some before.length := by
  rw [find, h]
  rfl

theorem Names.find_left (h : Names stat p name rest) : find stat leftParen = some p.length := by
  rw [h.stat_eq]
  exact find_eq_of_cut (Search.cut_append_cons h.left_notMem)

theorem Names.drop_left (h : Names stat p name rest) :
    stat.drop (p.length + 1) = name ++ rightParen :: rest := by
  rw [h.stat_eq, ← List.drop_drop, List.drop_left, List.drop_one, List.tail_cons]

theorem Names.unique (h : Names stat p name rest) {p' name' rest' : List Byte}
    (h' : Names stat p' name' rest') : p' = p ∧ name' = name ∧ rest' = rest := by
  have hcut := Search.cut_append_cons (q := name ++ rightParen :: rest) h.left_notMem
  have hcut' := Search.cut_append_cons (q := name' ++ rightParen :: rest') h'.left_notMem
  rw [← h.stat_eq] at hcut
  rw [← h'.stat_eq, hcut] at hcut'
  obtain ⟨hp, hq⟩ := Prod.mk.inj (Option.some.inj hcut')
  have hlast := congrArg (Search.afterLast rightParen) hq
  rw [Search.afterLast_append_cons, Search.afterLast_append_cons,
    Search.afterLast_eq_self_iff.mpr h.right_notMem,
    Search.afterLast_eq_self_iff.mpr h'.right_notMem] at hlast
  rw [hlast] at hq
  exact ⟨hp.symm, (List.append_cancel_right hq).symm, hlast.symm⟩

theorem Names.procname_eq (h : Names stat p name rest) {n : ℕ}
    (hright : find stat rightParen = some (p.length + 1 + n)) :
    procname stat = ⟨name ++ rightParen :: rest, toInt n⟩ := by
  have hlt : p.length < p.length + 1 + n := by omega
  have hlen : p.length + 1 + n - p.length - 1 = n := by omega
  rw [procname, h.find_left, hright]
  dsimp only
  rw [if_pos hlt, h.drop_left, hlen]

/-- A `)` before the `(` hides the name. -/
theorem Names.procname_hidden (h : Names stat p name rest) (hp : rightParen ∈ p) :
    procname stat = .new := by
  obtain ⟨a, b, rfl, ha⟩ := List.eq_append_cons_of_mem hp
  have hright : find stat rightParen = some a.length := by
    rw [h.stat_eq, List.append_assoc, List.cons_append]
    exact find_eq_of_cut (Search.cut_append_cons ha)
  have hle : ¬ (a ++ rightParen :: b).length < a.length := by
    rw [List.length_append]
    omega
  rw [procname, h.find_left, hright]
  exact if_neg hle

theorem Names.procname_upTo (h : Names stat p name rest) (hp : rightParen ∉ p)
    {first last : List Byte} (hname : name ++ rightParen :: rest = first ++ rightParen :: last)
    (hfirst : rightParen ∉ first) :
    procname stat = ⟨name ++ rightParen :: rest, toInt first.length⟩ := by
  apply h.procname_eq
  have hnotMem : rightParen ∉ p ++ leftParen :: first := by
    rw [List.mem_append, List.mem_cons, not_or, not_or]
    exact ⟨hp, by decide, hfirst⟩
  have hstat : stat = (p ++ leftParen :: first) ++ rightParen :: last := by
    rw [h.stat_eq, hname, List.append_assoc, List.cons_append]
  have hlen : (p ++ leftParen :: first).length = p.length + 1 + first.length := by
    rw [List.length_append, List.length_cons]
    omega
  rw [← hlen, hstat]
  exact find_eq_of_cut (Search.cut_append_cons hnotMem)

theorem procname_of_unnamed (h : ∀ p name rest, ¬ Names stat p name rest) :
    procname stat = .new := by
  unfold procname find
  cases hleft : Search.cut leftParen stat with
  | none => rfl
  | some left =>
    cases hright : Search.cut rightParen stat with
    | none => rfl
    | some right =>
      obtain ⟨p, q⟩ := left
      obtain ⟨a, b⟩ := right
      refine if_neg fun hlt => ?_
      -- the last `)` comes after the `(`, since the first one does
      obtain ⟨hstat, hp⟩ := Search.cut_eq_some hleft
      obtain ⟨hstat', -⟩ := Search.cut_eq_some hright
      have hmem : rightParen ∈ q := by
        have hdrop : stat.drop (p.length + 1) = q := by
          rw [hstat, ← List.drop_drop, List.drop_left, List.drop_one, List.tail_cons]
        have hlt' : p.length + 1 ≤ a.length := hlt
        rw [← hdrop, hstat', List.drop_append_of_le_length hlt']
        exact List.mem_append_right _ List.mem_cons_self
      obtain ⟨name, rest, hq, hrest⟩ := Search.exists_last hmem
      exact h p name rest ⟨hq ▸ hstat, hp, hrest⟩

/-- A line is handled exactly when it has the name between its first `(` and its only `)`, and an
`int` holds the length of the name. -/
theorem found_iff (stat : List Byte) :
    Found stat ↔ ∃ p name rest, Names stat p name rest ∧ rightParen ∉ p ∧ rightParen ∉ name ∧
      name.length < 2 ^ 31 := by
  constructor
  · rintro ⟨hname, hnone⟩
    by_cases hex : ∃ p name rest, Names stat p name rest
    · obtain ⟨p, name, rest, h⟩ := hex
      obtain ⟨hlen, hprefix⟩ := hname p name rest h
      have hp : rightParen ∉ p := by
        intro hp
        rw [h.procname_hidden hp] at hlen hprefix
        rw [List.prefix_nil.mp hprefix] at hlen
        cases hlen
      have hn : rightParen ∉ name := by
        intro hn
        obtain ⟨a, b, rfl, ha⟩ := List.eq_append_cons_of_mem hn
        have hle := toInt_le a.length
        rw [h.procname_upTo hp (List.append_assoc a _ _) ha, List.length_append,
          List.length_cons] at hlen
        dsimp only at hlen
        omega
      rw [h.procname_upTo hp rfl hn] at hlen
      dsimp only at hlen
      exact ⟨p, name, rest, h, hp, hn, toInt_eq_iff.mp hlen⟩
    · have hunnamed : ∀ p name rest, ¬ Names stat p name rest :=
        fun p name rest h => hex ⟨p, name, rest, h⟩
      obtain ⟨hlen, -⟩ := hnone hunnamed
      rw [procname_of_unnamed hunnamed] at hlen
      cases hlen
  · rintro ⟨p, name, rest, h, hp, hn, hlen⟩
    constructor
    · intro p' name' rest' h'
      obtain ⟨-, rfl, -⟩ := h.unique h'
      rw [h.procname_upTo hp rfl hn, toInt_of_lt hlen]
      exact ⟨rfl, List.prefix_append ..⟩
    · intro hnone
      exact absurd h (hnone p name rest)

/-- The name `a)b` is cut at its `)`, and an empty line has a name of length one at a null
pointer. -/
theorem name_with_paren_cut :
    Names (ascii ['1', ' ', '(', 'a', ')', 'b', ')', ' ', 'R']) (ascii ['1', ' '])
        (ascii ['a', ')', 'b']) (ascii [' ', 'R']) ∧
      (procname (ascii ['1', ' ', '(', 'a', ')', 'b', ')', ' ', 'R'])).asString =
        .ok (ascii ['a']) ∧
      (procname []).asString = .error (.outOfBounds .string_piece_h 150) ∧
      ¬ Found (ascii ['1', ' ', '(', 'a', ')', 'b', ')', ' ', 'R']) ∧ ¬ Found [] := by
  have hnames : Names (ascii ['1', ' ', '(', 'a', ')', 'b', ')', ' ', 'R']) (ascii ['1', ' '])
      (ascii ['a', ')', 'b']) (ascii [' ', 'R']) := ⟨by decide, by decide, by decide⟩
  refine ⟨hnames, by decide, by decide, fun h => ?_, fun h => ?_⟩
  · have hlen := (h.1 _ _ _ hnames).1
    revert hlen
    decide
  · have hlen := (h.2 fun p name rest hn => by simpa using hn.stat_eq).1
    revert hlen
    decide

end ProcessInfo

end Dwater
