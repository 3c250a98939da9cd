import Dwater.Net.Http.Decoding

/-! # The grammar of the request line

A request line is a method, a target and a version with single spaces between them.
`ProcessRequestLine` accepts the lines of this grammar and no others, but for those whose
method is `HEAD`: `SetMethod` assigns its constant to the local string and leaves the
method of the request invalid.
-/

set_option autoImplicit false
namespace Dwater

open Fallible Search

theorem Method.string_injective : Function.Injective Method.string := by
  intro m m' h
  cases m <;> cases m' <;> first | rfl | exact absurd h (by decide)

def methodTable : List (Method × List Byte) :=
  [(.kget, ascii ['G', 'E', 'T']), (.kpost, ascii ['P', 'O', 'S', 'T']),
    (.khead, ascii ['H', 'E', 'A', 'D']), (.kput, ascii ['P', 'U', 'T']),
    (.kdelete, ascii ['D', 'E', 'L', 'E', 'T', 'E'])]

theorem mem_methodTable {method : Method} {name : List Byte} :
    (method, name) ∈ methodTable ↔ method ≠ .kinvalid ∧ method.string = name := by
  constructor
  · intro h
    simp only [methodTable, List.mem_cons, Prod.mk.injEq, List.not_mem_nil, or_false] at h
    rcases h with ⟨rfl, rfl⟩ | ⟨rfl, rfl⟩ | ⟨rfl, rfl⟩ | ⟨rfl, rfl⟩ | ⟨rfl, rfl⟩
    all_goals decide
  · rintro ⟨hne, rfl⟩
    cases method with
    | kinvalid => exact absurd rfl hne
    | kget | kpost | khead | kput | kdelete => decide

/-- The parts of a request line. -/
@[ext] structure LineParts where
  method : Method
  name : List Byte
  target : List Byte
  digit : Char
  named : (method, name) ∈ methodTable
  space_notMem : space ∉ target
  digit_eq : digit = '0' ∨ digit = '1'

namespace LineParts

def text (l : LineParts) : List Byte :=
  l.name ++ space :: (l.target ++ space :: versionWord l.digit)

def version (l : LineParts) : Version := if l.digit = '1' then .khttp11 else .khttp10

variable {l l' : LineParts}

theorem space_notMem_name (l : LineParts) : space ∉ l.name := by
  obtain ⟨-, hname⟩ := mem_methodTable.mp l.named
  rw [← hname]
  exact WireRequest.space_notMem_method l.method

theorem text_inj (h : l.text = l'.text) : l = l' := by
  have hname := cut_append_cons (q := l.target ++ space :: versionWord l.digit) l.space_notMem_name
  have hname' := cut_append_cons (q := l'.target ++ space :: versionWord l'.digit)
    l'.space_notMem_name
  obtain ⟨hn, hrest⟩ := Prod.mk.inj
    (Option.some.inj (hname.symm.trans ((congrArg (cut space) h).trans hname')))
  have htarget := cut_append_cons (q := versionWord l.digit) l.space_notMem
  rw [hrest, cut_append_cons l'.space_notMem] at htarget
  obtain ⟨ht, hword⟩ := Prod.mk.inj (Option.some.inj htarget)
  have hmethod : l.method = l'.method := by
    obtain ⟨-, hs⟩ := mem_methodTable.mp l.named
    obtain ⟨-, hs'⟩ := mem_methodTable.mp l'.named
    exact Method.string_injective (hs.trans (hn.trans hs'.symm))
  ext1
  · exact hmethod
  · exact hn
  · exact ht.symm
  · rcases l.digit_eq with hd | hd <;> rcases l'.digit_eq with hd' | hd'
    · rw [hd, hd']
    · rw [hd, hd'] at hword
      exact absurd hword (by decide)
    · rw [hd, hd'] at hword
      exact absurd hword (by decide)
    · rw [hd, hd']

/-- The request has the parts of the line, with the target cut at its first question mark. -/
structure DecodedTo (l : LineParts) (f : RequestFields) : Prop where
  method_eq : f.method = l.method
  string_eq : f.method.string = l.name
  path_query : f.path ++ f.query = l.target
  question_notMem : question ∉ f.path
  query_eq : f.query = [] ∨ ∃ rest, f.query = question :: rest
  version_eq : f.version = l.version

end LineParts

namespace RequestFields

variable {r f : RequestFields} {line m target word : List Byte} {l : LineParts}

theorem acceptedMethod_eq_some {method : Method} :
    acceptedMethod m = some method ↔
      method.string = m ∧ method ≠ .kinvalid ∧ method ≠ .khead := by
  constructor
  · exact string_of_accepted
  · rintro ⟨rfl, hinvalid, hhead⟩
    cases method with
    | kinvalid => exact absurd rfl hinvalid
    | khead => exact absurd rfl hhead
    | kget | kpost | kput | kdelete => decide

theorem versionOf_eq_some {version : Version} :
    versionOf word = some version ↔ ∃ d, (d = '0' ∨ d = '1') ∧ word = versionWord d ∧
      version = if d = '1' then .khttp11 else .khttp10 := by
  constructor
  · intro h
    obtain ⟨d, hd, rfl⟩ := versionOf_ne_none (by rw [h]; exact Option.some_ne_none version)
    refine ⟨d, hd, rfl, ?_⟩
    rcases hd with rfl | rfl
    · exact (Option.some.inj h).symm
    · exact (Option.some.inj h).symm
  · rintro ⟨d, rfl | rfl, rfl, rfl⟩
    · rfl
    · rfl

/-- What an accepted line looks like, and what it makes of the request. -/
theorem processRequestLine_eq_true (h : r.method = .kinvalid) :
    r.processRequestLine line = .ok (true, f) ↔
      ∃ l : LineParts, l.text = line ∧ l.method ≠ .khead ∧
        f = ({ r with method := l.method }.setTarget l.target).setVersion l.version := by
  constructor
  · intro hp
    unfold processRequestLine at hp
    cases hcut : cut space line with
    | none =>
      rw [hcut] at hp
      cases hp
    | some parts =>
      obtain ⟨m, rest⟩ := parts
      obtain ⟨rfl, -⟩ := cut_eq_some hcut
      simp only [hcut, setMethod_eq h] at hp
      cases hacc : acceptedMethod m with
      | none =>
        rw [hacc] at hp
        cases hp
      | some method =>
        obtain ⟨rfl, hinvalid, hhead⟩ := acceptedMethod_eq_some.mp hacc
        simp only [hacc, bind, Except.bind, if_true] at hp
        cases hcut₂ : cut space rest with
        | none =>
          rw [hcut₂] at hp
          cases hp
        | some words =>
          obtain ⟨target, word⟩ := words
          obtain ⟨rfl, htarget⟩ := cut_eq_some hcut₂
          simp only [hcut₂] at hp
          cases hv : versionOf word with
          | none =>
            rw [hv] at hp
            cases hp
          | some version =>
            rw [hv] at hp
            cases hp
            obtain ⟨d, hd, rfl, rfl⟩ := versionOf_eq_some.mp hv
            have hnamed := mem_methodTable.mpr ⟨hinvalid, rfl⟩
            exact ⟨⟨method, _, target, d, hnamed, htarget, hd⟩, rfl, hhead, rfl⟩
  · rintro ⟨l, rfl, hhead, rfl⟩
    obtain ⟨hinvalid, hname⟩ := mem_methodTable.mp l.named
    have hm : acceptedMethod l.name = some l.method :=
      acceptedMethod_eq_some.mpr ⟨hname, hinvalid, hhead⟩
    have hv : versionOf (versionWord l.digit) = some l.version :=
      versionOf_eq_some.mpr ⟨l.digit, l.digit_eq, rfl, rfl⟩
    simp only [processRequestLine, LineParts.text,
      cut_append_cons l.space_notMem_name, setMethod_eq h, hm, bind, Except.bind, if_true,
      cut_append_cons l.space_notMem, hv]
    rfl

theorem setTarget_decoded (hquery : r.query = []) (target : List Byte) :
    (r.setTarget target).path ++ (r.setTarget target).query = target ∧
      question ∉ (r.setTarget target).path ∧
      ((r.setTarget target).query = [] ∨
        ∃ rest, (r.setTarget target).query = question :: rest) := by
  unfold setTarget
  cases hcut : cut question target with
  | none =>
    have hpath : (r.setPath target).query = [] := hquery
    refine ⟨?_, cut_eq_none_iff.mp hcut, .inl hpath⟩
    rw [hpath, List.append_nil]
    rfl
  | some parts =>
    obtain ⟨path, rest⟩ := parts
    obtain ⟨rfl, hnot⟩ := cut_eq_some hcut
    exact ⟨rfl, hnot, .inr ⟨rest, rfl⟩⟩

theorem decodedTo_of_accepted (l : LineParts) :
    l.DecodedTo (({ new with method := l.method }.setTarget l.target).setVersion l.version) := by
  obtain ⟨hpath, hnot, hquery⟩ :=
    setTarget_decoded (r := { new with method := l.method }) rfl l.target
  have hmethod : ({ new with method := l.method }.setTarget l.target).method = l.method :=
    setTarget_method l.target
  constructor
  · exact hmethod
  · exact (congrArg Method.string hmethod).trans (mem_methodTable.mp l.named).2
  · exact hpath
  · exact hnot
  · exact hquery
  · rfl

/-- `ProcessRequestLine` of a new request accepts just the lines of the grammar, and decodes
them. -/
def RecognizesLine (line : List Byte) : Prop :=
  Yields (new.processRequestLine line) fun r =>
    (r.1 = true ↔ ∃ l : LineParts, l.text = line) ∧
    (r.1 = true → ∀ l : LineParts, l.text = line → l.DecodedTo r.2)

def IsHeadLine (line : List Byte) : Prop :=
  ∃ l : LineParts, l.text = line ∧ l.method = .khead

/-- The request line parser recognizes its grammar, except for `HEAD` lines. -/
theorem line_recognized_iff (line : List Byte) : RecognizesLine line ↔ ¬ IsHeadLine line := by
  obtain ⟨ok, f, hp⟩ := processRequestLine_total (r := new) rfl line
  have haccepts : new.processRequestLine line = .ok (true, f) ↔ _ :=
    processRequestLine_eq_true rfl
  rw [RecognizesLine, hp, yields_ok]
  cases ok with
  | true =>
    obtain ⟨l, htext, hhead, rfl⟩ := haccepts.mp hp
    constructor
    · rintro - ⟨l', htext', hhead'⟩
      obtain rfl := LineParts.text_inj (htext.trans htext'.symm)
      exact hhead hhead'
    · rintro -
      refine ⟨⟨fun _ => ⟨l, htext⟩, fun _ => rfl⟩, fun _ l' htext' => ?_⟩
      obtain rfl := LineParts.text_inj (htext.trans htext'.symm)
      exact decodedTo_of_accepted l
  | false =>
    constructor
    · rintro ⟨hiff, -⟩ ⟨l, htext, -⟩
      exact absurd (hiff.mpr ⟨l, htext⟩) Bool.false_ne_true
    · intro hhead
      refine ⟨⟨fun hok => absurd hok Bool.false_ne_true, ?_⟩,
        fun hok => absurd hok Bool.false_ne_true⟩
      -- a line of the grammar with another method would have been accepted
      rintro ⟨l, htext⟩
      have hline := (processRequestLine_eq_true (r := new) rfl).mpr
        ⟨l, htext, fun hm => hhead ⟨l, htext, hm⟩, rfl⟩
      cases hp.symm.trans hline

def headLine : List Byte :=
  ascii ['H', 'E', 'A', 'D', ' ', '/', ' ', 'H', 'T', 'T', 'P', '/', '1', '.', '1']

/-- `HEAD / HTTP/1.1` is in the grammar, has no line end in it, and is rejected. -/
theorem head_line_rejected :
    (∃ l : LineParts, l.text = headLine) ∧ cutPair cr lf headLine = none ∧
      new.processRequestLine headLine = .ok (false, new) ∧ ¬ RecognizesLine headLine := by
  have hgrammar : ∃ l : LineParts, l.text = headLine :=
    ⟨⟨.khead, ascii ['H', 'E', 'A', 'D'], ascii ['/'], '1', by decide, by decide, .inr rfl⟩, rfl⟩
  have hrejected : new.processRequestLine headLine = .ok (false, new) := rfl
  refine ⟨hgrammar, by decide, hrejected, ?_⟩
  rw [RecognizesLine, hrejected, yields_ok]
  rintro ⟨hiff, -⟩
  exact absurd (hiff.mpr hgrammar) Bool.false_ne_true

end RequestFields

end Dwater
