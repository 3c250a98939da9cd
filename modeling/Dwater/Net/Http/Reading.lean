import Dwater.Net.ByteQueue
import Dwater.Net.Http.HttpServer

/-! # Reading requests from a queue of bytes

What `ParseRequest` makes of the bytes of a buffer, as a relation between what is
expected and read so far, the bytes, and what is left of both. The relation is
deterministic and goes on over further bytes where it stopped, so that it does not
matter in which pieces the bytes arrive.
-/

set_option autoImplicit false
namespace Dwater

open Fallible Search Buffer

/-- A context without its receive time. -/
@[ext]
structure Reader where
  state : HttpRequestParseState
  fields : RequestFields
  deriving DecidableEq, Repr

def HttpContext.reader (c : HttpContext) : Reader := ⟨c.state, c.request.toRequestFields⟩

namespace Reader

def new : Reader := ⟨.kexpectRequestLine, .new⟩

def Reading (c : Reader) : Prop := c.state = .kexpectRequestLine ∨ c.state = .kexpectHeaders

/-- A line is expected and no request line has been read in part. -/
def Clean (c : Reader) : Prop := c.Reading ∧
  (c.state = .kexpectRequestLine → c.fields.method = .kinvalid)

end Reader

/-- `Reads c q ok c' q'`: from the bytes `q` the reader `c` becomes `c'` with `q'` left. -/
inductive Reads : Reader → List Byte → Bool → Reader → List Byte → Prop

  | blocked {c : Reader} {q : List Byte} : c.Reading → cutPair cr lf q = none →
      Reads c q true c q

  | rejected {f f' : RequestFields} {q line rest : List Byte} :
      cutPair cr lf q = some (line, rest) → f.processRequestLine line = .ok (false, f') →
      Reads ⟨.kexpectRequestLine, f⟩ q false ⟨.kexpectRequestLine, f'⟩ q

  | requestLine {f f' : RequestFields} {q line rest q' : List Byte} {ok : Bool} {c' : Reader} :
      cutPair cr lf q = some (line, rest) → f.processRequestLine line = .ok (true, f') →
      Reads ⟨.kexpectHeaders, f'⟩ rest ok c' q' → Reads ⟨.kexpectRequestLine, f⟩ q ok c' q'

  | header {f : RequestFields} {q line rest field value q' : List Byte} {ok : Bool} {c' : Reader} :
      cutPair cr lf q = some (line, rest) → cut colon line = some (field, value) →
      Reads ⟨.kexpectHeaders, f.addHeader field value⟩ rest ok c' q' →
      Reads ⟨.kexpectHeaders, f⟩ q ok c' q'

  | ended {f : RequestFields} {q line rest : List Byte} :
      cutPair cr lf q = some (line, rest) → cut colon line = none →
      Reads ⟨.kexpectHeaders, f⟩ q true ⟨.kGotAll, f⟩ rest

namespace Reads

variable {c c' c₁ c₂ : Reader} {q q' q₁ q₂ x : List Byte} {ok ok₁ ok₂ : Bool}

theorem deterministic (h₁ : Reads c q ok₁ c₁ q₁) (h₂ : Reads c q ok₂ c₂ q₂) :
    ok₁ = ok₂ ∧ c₁ = c₂ ∧ q₁ = q₂ := by
  induction h₁ with
  | blocked hr hq =>
    cases h₂ with
    | blocked => exact ⟨rfl, rfl, rfl⟩
    | rejected hq' | requestLine hq' | header hq' | ended hq' => rw [hq] at hq'; cases hq'
  | rejected hq hp =>
    cases h₂ with
    | blocked _ hq' => rw [hq] at hq'; cases hq'
    | rejected hq' hp' =>
      cases hq.symm.trans hq'
      cases hp.symm.trans hp'
      exact ⟨rfl, rfl, rfl⟩
    | requestLine hq' hp' =>
      cases hq.symm.trans hq'
      cases hp.symm.trans hp'
  | requestLine hq hp _ ih =>
    cases h₂ with
    | blocked _ hq' => rw [hq] at hq'; cases hq'
    | rejected hq' hp' =>
      cases hq.symm.trans hq'
      cases hp.symm.trans hp'
    | requestLine hq' hp' h' =>
      cases hq.symm.trans hq'
      cases hp.symm.trans hp'
      exact ih h'
  | header hq hc _ ih =>
    cases h₂ with
    | blocked _ hq' => rw [hq] at hq'; cases hq'
    | header hq' hc' h' =>
      cases hq.symm.trans hq'
      cases hc.symm.trans hc'
      exact ih h'
    | ended hq' hc' =>
      cases hq.symm.trans hq'
      cases hc.symm.trans hc'
  | ended hq hc =>
    cases h₂ with
    | blocked _ hq' => rw [hq] at hq'; cases hq'
    | header hq' hc' =>
      cases hq.symm.trans hq'
      cases hc.symm.trans hc'
    | ended hq' hc' =>
      cases hq.symm.trans hq'
      exact ⟨rfl, rfl, rfl⟩

/-- A reader that was blocked goes on over further bytes as if it had seen all of them at once. -/
theorem resume (h : Reads c q true c' q') (hg : c'.state ≠ .kGotAll)
    (hx : Reads c' (q' ++ x) ok₁ c₁ q₁) : Reads c (q ++ x) ok₁ c₁ q₁ := by
  generalize hok : true = ok at h
  induction h with
  | blocked => exact hx
  | rejected => cases hok
  | requestLine hq hp _ ih => exact .requestLine (cutPair_append hq x) hp (ih hg hx hok)
  | header hq hc _ ih => exact .header (cutPair_append hq x) hc (ih hg hx hok)
  | ended => exact absurd rfl hg

theorem complete_append (h : Reads c q ok c' q') (hg : c'.state = .kGotAll) (x : List Byte) :
    Reads c (q ++ x) ok c' (q' ++ x) := by
  induction h with
  | blocked hr =>
    rcases hr with hs | hs
    · rw [hs] at hg; cases hg
    · rw [hs] at hg; cases hg
  | rejected => cases hg
  | requestLine hq hp _ ih => exact .requestLine (cutPair_append hq x) hp (ih hg)
  | header hq hc _ ih => exact .header (cutPair_append hq x) hc (ih hg)
  | ended hq hc => exact .ended (cutPair_append hq x) hc

theorem rejected_append (h : Reads c q false c' q') (x : List Byte) :
    Reads c (q ++ x) false c' (q' ++ x) := by
  generalize hok : false = ok at h
  induction h with
  | blocked => cases hok
  | rejected hq hp => exact .rejected (cutPair_append hq x) hp
  | requestLine hq hp _ ih => exact .requestLine (cutPair_append hq x) hp (ih hok)
  | header hq hc _ ih => exact .header (cutPair_append hq x) hc (ih hok)
  | ended => cases hok

theorem ok_of_headers (h : Reads c q ok c' q') (hs : c.state = .kexpectHeaders) :
    ok = true ∧ (c'.state = .kGotAll ∨ c'.state = .kexpectHeaders) := by
  induction h with
  | blocked => exact ⟨rfl, .inr hs⟩
  | rejected => cases hs
  | requestLine => cases hs
  | header _ _ _ ih => exact ih rfl
  | ended => exact ⟨rfl, .inl rfl⟩

end Reads

/-- The methods that `SetMethod` accepts, which leave out `HEAD`. -/
def acceptedMethod (m : List Byte) : Option Method :=
  if m = Method.kget.string then some .kget
  else if m = Method.kpost.string then some .kpost
  else if m = Method.kput.string then some .kput
  else if m = Method.kdelete.string then some .kdelete
  else none

namespace RequestFields

variable {r : RequestFields} {line m target word : List Byte}

theorem setMethod_eq (h : r.method = .kinvalid) (m : List Byte) :
    r.setMethod m = .ok (match acceptedMethod m with
      | some method => (true, { r with method := method })
      | none => (false, r)) := by
  have hr : { r with method := .kinvalid } = r := by rw [← h]
  have hhead : m = Method.khead.string → acceptedMethod m = none := by
    rintro rfl
    decide
  unfold setMethod
  rw [check_bind_of_true h]
  by_cases hh : m = Method.khead.string
  · rw [hhead hh]
    subst hh
    simp only [show Method.khead.string ≠ Method.kget.string by decide,
      show Method.khead.string ≠ Method.kpost.string by decide, if_false, if_true, h, hr]
    rfl
  · simp only [hh, if_false]
    unfold acceptedMethod
    split
    · rfl
    · split
      · rfl
      · split
        · rfl
        · split
          · rfl
          · simp only [hr]
            rfl

theorem setMethod_fails (h : r.method ≠ .kinvalid) (m : List Byte) :
    r.setMethod m = .error (.assertion .http_request_h 51) := check_bind_of_false h

theorem processRequestLine_total (h : r.method = .kinvalid) (line : List Byte) :
    ∃ ok f, r.processRequestLine line = .ok (ok, f) := by
  unfold processRequestLine
  cases cut space line with
  | none => exact ⟨false, r, rfl⟩
  | some parts =>
    simp only [setMethod_eq h]
    cases acceptedMethod parts.1 with
    | none => exact ⟨false, r, rfl⟩
    | some method =>
      cases cut space parts.2 with
      | none => exact ⟨false, _, rfl⟩
      | some words =>
        cases hv : versionOf words.2 with
        | none => exact ⟨false, _, by simp [bind, Except.bind, hv]; rfl⟩
        | some version => exact ⟨true, _, by simp [bind, Except.bind, hv]; rfl⟩

end RequestFields

namespace Parsing

variable {p : Parsing} {q line rest : List Byte} {t : Timestamp}

theorem findCRLF_eq (hb : p.buf.Represents q) :
    p.buf.findCRLF = (cutPair cr lf q).map fun r => r.1.length := by
  rw [findCRLF, hb.2]

theorem take_line (h : cutPair cr lf q = some (line, rest)) : q.take line.length = line := by
  rw [cutPair_eq_some h]
  exact List.take_left

theorem retrieve_line {b : Buffer} (hb : b.Represents q)
    (h : cutPair cr lf q = some (line, rest)) :
    Yields (b.retrieveUntil (b.peek + (line.length + 2))) (Represents · rest) := by
  have hle : line.length + 2 ≤ q.length := by
    rw [length_of_cutPair h]
    omega
  have hy := retrieveUntil_represents hb hle
  have hdrop : q.drop (line.length + 2) = rest := by
    rw [cutPair_eq_some h, ← List.drop_drop, List.drop_left]
    rfl
  rwa [hdrop] at hy

theorem loop_done (h : p.hasMore = false) (n : ℕ) : loop t n p = .ok (some p) := by
  cases n with
  | zero => simp only [loop, h]; rfl
  | succ n => simp only [loop, h]; rfl

theorem loop_succ (h : p.hasMore = true) (n : ℕ) :
    loop t (n + 1) p = p.round t >>= loop t n := by
  simp only [loop, h, if_true]

/--
What one round makes of the bytes `q`: the loop ends, having read what the relation says, or it goes
on with fewer bytes and whatever is read from them is read from `q`.
-/
def Advances (p : Parsing) (q : List Byte) (p' : Parsing) : Prop :=
  ∃ q', p'.buf.Represents q' ∧
    ((p'.hasMore = false ∧ Reads p.context.reader q p'.ok p'.context.reader q') ∨
      (p'.hasMore = true ∧ p'.ok = true ∧ p'.context.reader.Clean ∧ q'.length < q.length ∧
        ∀ ok c r, Reads p'.context.reader q' ok c r → Reads p.context.reader q ok c r))

theorem advances_blocked (hb : p.buf.Represents q) (hok : p.ok = true)
    (hc : p.context.reader.Reading) (hq : cutPair cr lf q = none) :
    p.Advances q { p with hasMore := false } := by
  refine ⟨q, hb, .inl ⟨rfl, ?_⟩⟩
  rw [hok]
  exact .blocked hc hq

theorem requestLine_advances (hb : p.buf.Represents q) (hok : p.ok = true)
    (hm : p.hasMore = true) (hs : p.context.state = .kexpectRequestLine)
    (hmethod : p.context.request.method = .kinvalid) :
    Yields (p.requestLine t) (p.Advances q) := by
  obtain ⟨⟨state, request⟩, buf, ok, hasMore⟩ := p
  cases hs
  simp only [requestLine, findCRLF_eq hb]
  cases hq : cutPair cr lf q with
  | none => exact yields_pure.mpr (advances_blocked hb hok (.inl rfl) hq)
  | some parts =>
    obtain ⟨line, rest⟩ := parts
    obtain ⟨ok', f, hf⟩ := request.processRequestLine_total hmethod line
    simp only [Option.map_some, hb.2, take_line hq, hf]
    cases ok' with
    | false => exact yields_pure.mpr ⟨q, hb, .inl ⟨rfl, .rejected hq hf⟩⟩
    | true =>
      obtain ⟨b', hb', hrest⟩ := retrieve_line hb hq
      have hlen := length_of_cutPair hq
      simp only [bind, Except.bind, if_true, hb']
      refine yields_pure.mpr ⟨rest, hrest, .inr ⟨hm, rfl, ⟨.inr rfl, ?_⟩, by omega, ?_⟩⟩
      · intro hs
        cases hs
      · exact fun _ _ _ hreads => .requestLine hq hf hreads

theorem headers_advances (hb : p.buf.Represents q) (hok : p.ok = true)
    (hm : p.hasMore = true) (hs : p.context.state = .kexpectHeaders) :
    Yields p.headers (p.Advances q) := by
  obtain ⟨⟨state, request⟩, buf, ok, hasMore⟩ := p
  cases hs
  simp only [headers, findCRLF_eq hb]
  cases hq : cutPair cr lf q with
  | none => exact yields_pure.mpr (advances_blocked hb hok (.inr rfl) hq)
  | some parts =>
    obtain ⟨line, rest⟩ := parts
    obtain ⟨b', hb', hrest⟩ := retrieve_line hb hq
    have hlen := length_of_cutPair hq
    simp only [Option.map_some, hb.2, take_line hq, headerLine]
    cases hcol : cut colon line with
    | none =>
      simp only [bind, Except.bind, hb']
      refine yields_pure.mpr ⟨rest, hrest, .inl ⟨rfl, ?_⟩⟩
      cases hok
      exact .ended hq hcol
    | some parts =>
      obtain ⟨field, value⟩ := parts
      simp only [bind, Except.bind, hb']
      refine yields_pure.mpr ⟨rest, hrest, .inr ⟨hm, hok, ⟨.inr rfl, ?_⟩, by omega, ?_⟩⟩
      · intro hs
        cases hs
      · exact fun _ _ _ hreads => .header hq hcol hreads

theorem round_advances (hb : p.buf.Represents q) (hok : p.ok = true) (hm : p.hasMore = true)
    (hc : p.context.reader.Clean) : Yields (p.round t) (p.Advances q) := by
  rcases hc.1 with hs | hs
  · have hs' : p.context.state = .kexpectRequestLine := hs
    simp only [round, hs']
    exact requestLine_advances hb hok hm hs (hc.2 hs)
  · have hs' : p.context.state = .kexpectHeaders := hs
    simp only [round, hs']
    exact headers_advances hb hok hm hs

/-- With more rounds than bytes the loop ends, having read what the relation says. -/
theorem loop_reads (n : ℕ) (hb : p.buf.Represents q) (hok : p.ok = true)
    (hm : p.hasMore = true) (hc : p.context.reader.Clean) (hn : q.length < n) :
    Yields (loop t n p) fun o => ∃ p' q', o = some p' ∧ p'.buf.Represents q' ∧
      Reads p.context.reader q p'.ok p'.context.reader q' := by
  induction n generalizing p q with
  | zero => omega
  | succ n ih =>
    rw [loop_succ hm]
    refine yields_bind (round_advances hb hok hm hc) ?_
    rintro p₁ ⟨q₁, hb₁, ⟨hdone, hreads⟩ | ⟨hm₁, hok₁, hc₁, hlt, hcont⟩⟩
    · rw [loop_done hdone]
      exact yields_ok.mpr ⟨p₁, q₁, rfl, hb₁, hreads⟩
    · refine (ih hb₁ hok₁ hm₁ hc₁ (by omega)).mono ?_
      rintro o ⟨p', q', rfl, hb', hreads⟩
      exact ⟨p', q', rfl, hb', hcont _ _ _ hreads⟩

theorem loop_endless (hm : p.hasMore = true)
    (hs : p.context.state = .kexpectBody ∨ p.context.state = .kGotAll) (n : ℕ) :
    loop t n p = .ok none := by
  induction n with
  | zero => simp only [loop, hm]; rfl
  | succ n ih =>
    have hround : p.round t = .ok p := by
      rcases hs with hs | hs
      · simp only [round, hs]; rfl
      · simp only [round, hs]; rfl
    rw [loop_succ hm, hround]
    exact ih

end Parsing

namespace HttpContext

/-- `ParseRequest` ends and reads what the relation says. -/
theorem parseRequest_reads {c : HttpContext} {b : Buffer} {q : List Byte} (t : Timestamp)
    (hb : b.Represents q) (hc : c.reader.Clean) :
    Yields (c.parseRequest b t) fun r => ∃ q', r.2.2.Represents q' ∧
      Reads c.reader q r.1 r.2.1.reader q' := by
  have hn : q.length < b.readableBytes + 1 := by
    have := hb.length
    omega
  obtain ⟨o, ho, p', q', rfl, hrep, hreads⟩ :=
    Parsing.loop_reads (p := ⟨c, b, true, true⟩) (t := t) (b.readableBytes + 1) hb rfl rfl hc hn
  unfold parseRequest
  rw [ho]
  exact ⟨_, rfl, q', hrep, hreads⟩

/-- Entered while no line is expected, `ParseRequest` never returns: no number of rounds ends
its loop. -/
theorem parseRequest_endless {c : HttpContext} (b : Buffer) (t : Timestamp)
    (hs : c.state = .kexpectBody ∨ c.state = .kGotAll) :
    c.parseRequest b t = .error (.endlessLoop .http_context_cc 49) ∧
      ∀ n, Parsing.loop t n ⟨c, b, true, true⟩ = .ok none := by
  have hloop : ∀ n, Parsing.loop t n ⟨c, b, true, true⟩ = .ok none := Parsing.loop_endless rfl hs
  refine ⟨?_, hloop⟩
  unfold parseRequest
  rw [hloop]
  rfl

end HttpContext

end Dwater
