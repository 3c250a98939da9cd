import Dwater.Net.Http.RequestLine

/-! # The end of the header section

A request ends with the first header line that has no colon. The protocol asks for an
empty line there, but `ParseRequest` does not look whether it is empty: any line without a
colon ends the request, and what follows is read as the next one.
-/

set_option autoImplicit false
namespace Dwater

open Fallible Search Buffer WireRequest HttpConnection

def IsLine (line : List Byte) : Prop := cutPair cr lf line = none

instance (line : List Byte) : Decidable (IsLine line) :=
  inferInstanceAs (Decidable (cutPair cr lf line = none))

theorem IsLine.cut_eq {line : List Byte} (h : IsLine line) (rest : List Byte) :
    cutPair cr lf (line ++ cr :: lf :: rest) = some (line, rest) :=
  cutPair_append_cons_of_none (by decide) h

def sectionText (headers : List (List Byte × List Byte)) (last : List Byte) : List Byte :=
  headers.flatMap (fun h => headerLine h ++ [cr, lf]) ++ last ++ [cr, lf]

/-- A request line, header lines each with a colon, and an empty line. -/
def IsRequestText (text : List Byte) : Prop :=
  ∃ line headers, text = line ++ cr :: lf :: sectionText headers [] ∧ IsLine line ∧
    ∀ h ∈ headers, IsLine (headerLine h)

/-- A request on these bytes, if it is completed, ends at an empty line. -/
def EndsAtEmptyLine (bytes : List Byte) : Prop :=
  ∀ b t, b.Represents bytes →
    Yields (HttpContext.new.parseRequest b t) fun r => r.2.1.gotAll = true →
      ∃ consumed, bytes = consumed ++ r.2.2.content ∧ IsRequestText consumed

/-- After an accepted request line, the first line without a colon is not empty. -/
def HasBareLine (bytes : List Byte) : Prop :=
  ∃ (l : LineParts) (headers : List (List Byte × List Byte)) (last rest : List Byte),
    bytes = l.text ++ cr :: lf :: (sectionText headers last ++ rest) ∧
    l.method ≠ .khead ∧ IsLine l.text ∧ (∀ h ∈ headers, IsLine (headerLine h)) ∧
    IsLine last ∧ colon ∉ last ∧ last ≠ []

theorem sectionText_cons (h : List Byte × List Byte) (headers : List (List Byte × List Byte))
    (last rest : List Byte) :
    sectionText (h :: headers) last ++ rest =
      headerLine h ++ cr :: lf :: (sectionText headers last ++ rest) := by
  simp [sectionText]

theorem sectionText_nil (last rest : List Byte) :
    sectionText [] last ++ rest = last ++ cr :: lf :: rest := by
  simp [sectionText]

theorem colon_mem_headerLine (h : List Byte × List Byte) : colon ∈ headerLine h := by
  simp [headerLine]

/-- The line that ends a section is determined by its bytes. -/
theorem last_of_sectionText {headers : List (List Byte × List Byte)} :
    ∀ {headers' : List (List Byte × List Byte)} {last last' rest rest' : List Byte},
      sectionText headers last ++ rest = sectionText headers' last' ++ rest' →
      (∀ h ∈ headers, IsLine (headerLine h)) → (∀ h ∈ headers', IsLine (headerLine h)) →
      IsLine last → IsLine last' → colon ∉ last → colon ∉ last' → last = last' := by
  induction headers with
  | nil =>
    intro headers' last last' rest rest' heq _ hlines' hlast hlast' hcolon hcolon'
    rw [sectionText_nil] at heq
    cases headers' with
    | nil =>
      rw [sectionText_nil] at heq
      have hcut := congrArg (cutPair cr lf) heq
      rw [hlast.cut_eq, hlast'.cut_eq] at hcut
      exact congrArg Prod.fst (Option.some.inj hcut)
    | cons h headers' =>
      rw [sectionText_cons] at heq
      have hcut := congrArg (cutPair cr lf) heq
      rw [hlast.cut_eq, (hlines' h List.mem_cons_self).cut_eq] at hcut
      have hline : last = headerLine h := congrArg Prod.fst (Option.some.inj hcut)
      exact absurd (hline ▸ colon_mem_headerLine h) hcolon
  | cons h headers ih =>
    intro headers' last last' rest rest' heq hlines hlines' hlast hlast' hcolon hcolon'
    rw [sectionText_cons] at heq
    have hcut := congrArg (cutPair cr lf) heq
    rw [(hlines h List.mem_cons_self).cut_eq] at hcut
    cases headers' with
    | nil =>
      rw [sectionText_nil, hlast'.cut_eq] at hcut
      have hline : headerLine h = last' := congrArg Prod.fst (Option.some.inj hcut)
      exact absurd (hline ▸ colon_mem_headerLine h) hcolon'
    | cons h' headers' =>
      rw [sectionText_cons, (hlines' h' List.mem_cons_self).cut_eq] at hcut
      exact ih (congrArg Prod.snd (Option.some.inj hcut))
        (fun g hg => hlines g (List.mem_cons_of_mem h hg))
        (fun g hg => hlines' g (List.mem_cons_of_mem h' hg)) hlast hlast' hcolon hcolon'

namespace Reads

variable {f : RequestFields} {c c' : Reader} {q q' : List Byte} {ok : Bool}

/-- A completed header section is a list of header lines and a line without a colon. -/
theorem headers_consumed (h : Reads c q ok c' q') (hc : c.state = .kexpectHeaders)
    (hg : c'.state = .kGotAll) :
    ∃ headers last, q = sectionText headers last ++ q' ∧
      (∀ g ∈ headers, IsLine (headerLine g)) ∧ IsLine last ∧ colon ∉ last := by
  induction h with
  | blocked hr => cases hc.symm.trans hg
  | rejected => cases hc
  | requestLine => cases hc
  | @header f q line rest field value q' ok c' hq hcol _ ih =>
    obtain ⟨headers, last, rfl, hlines, hlast, hcolon⟩ := ih rfl hg
    obtain ⟨hline, -⟩ := cut_eq_some hcol
    refine ⟨(field, value) :: headers, last, ?_, ?_, hlast, hcolon⟩
    · rw [sectionText_cons, cutPair_eq_some hq, hline]
      rfl
    · intro g hmem
      rcases List.mem_cons.mp hmem with rfl | hmem
      · have := cutPair_before hq
        rwa [hline] at this
      · exact hlines g hmem
  | @ended f q line rest hq hcol =>
    refine ⟨[], line, ?_, fun g hmem => absurd hmem List.not_mem_nil, cutPair_before hq,
      cut_eq_none_iff.mp hcol⟩
    rw [sectionText_nil]
    exact cutPair_eq_some hq

theorem headers_complete {headers : List (List Byte × List Byte)} :
    ∀ {f : RequestFields} {last : List Byte}, (∀ g ∈ headers, IsLine (headerLine g)) →
      IsLine last → colon ∉ last → ∀ rest, ∃ f',
        Reads ⟨.kexpectHeaders, f⟩ (sectionText headers last ++ rest) true ⟨.kGotAll, f'⟩ rest := by
  induction headers with
  | nil =>
    intro f last _ hlast hcolon rest
    rw [sectionText_nil]
    exact ⟨f, .ended (hlast.cut_eq rest) (cut_eq_none_iff.mpr hcolon)⟩
  | cons g headers ih =>
    intro f last hlines hlast hcolon rest
    have hcut : ∃ p, cut colon (headerLine g) = some p := by
      rw [← Option.ne_none_iff_exists']
      intro hnone
      exact cut_eq_none_iff.mp hnone (colon_mem_headerLine g)
    obtain ⟨⟨field, value⟩, hcut⟩ := hcut
    obtain ⟨f', hreads⟩ := ih (f := f.addHeader field value)
      (fun g' hg' => hlines g' (List.mem_cons_of_mem g hg')) hlast hcolon rest
    rw [sectionText_cons]
    exact ⟨f', .header ((hlines g List.mem_cons_self).cut_eq _) hcut hreads⟩

/-- The bytes of a completed request: its line, its headers and the line that ends them. -/
theorem request_consumed (h : Reads .new q ok c' q') (hg : c'.state = .kGotAll) :
    ∃ (l : LineParts) (headers : List (List Byte × List Byte)) (last : List Byte),
      q = l.text ++ cr :: lf :: (sectionText headers last ++ q') ∧ l.method ≠ .khead ∧
      IsLine l.text ∧ (∀ g ∈ headers, IsLine (headerLine g)) ∧ IsLine last ∧ colon ∉ last := by
  generalize hnew : Reader.new = c at h
  cases h with
  | blocked hr =>
    rw [← hnew] at hg
    cases hg
  | rejected => cases hg
  | requestLine hq hp hrest =>
    cases hnew
    obtain ⟨headers, last, rfl, hlines, hlast, hcolon⟩ := hrest.headers_consumed rfl hg
    obtain ⟨l, rfl, hhead, -⟩ := (RequestFields.processRequestLine_eq_true rfl).mp hp
    exact ⟨l, headers, last, cutPair_eq_some hq, hhead, cutPair_before hq, hlines, hlast, hcolon⟩
  | header => cases hnew
  | ended => cases hnew

end Reads

theorem reads_bareLine {l : LineParts} {headers : List (List Byte × List Byte)}
    {last : List Byte} (hhead : l.method ≠ .khead) (hline : IsLine l.text)
    (hlines : ∀ g ∈ headers, IsLine (headerLine g)) (hlast : IsLine last) (hcolon : colon ∉ last)
    (rest : List Byte) :
    ∃ f, Reads .new (l.text ++ cr :: lf :: (sectionText headers last ++ rest)) true
      ⟨.kGotAll, f⟩ rest := by
  have hp := (RequestFields.processRequestLine_eq_true (r := .new) rfl).mpr ⟨l, rfl, hhead, rfl⟩
  obtain ⟨f, hreads⟩ := Reads.headers_complete hlines hlast hcolon rest
  exact ⟨f, .requestLine (hline.cut_eq _) hp hreads⟩

theorem nil_of_isRequestText {line last : List Byte} {headers : List (List Byte × List Byte)}
    (h : IsRequestText (line ++ cr :: lf :: sectionText headers last)) (hline : IsLine line)
    (hlines : ∀ g ∈ headers, IsLine (headerLine g)) (hlast : IsLine last) (hcolon : colon ∉ last) :
    last = [] := by
  obtain ⟨line', headers', heq, hline', hlines'⟩ := h
  have hcut := congrArg (cutPair cr lf) heq
  rw [hline.cut_eq, hline'.cut_eq] at hcut
  have hsection : sectionText headers last ++ [] = sectionText headers' [] ++ [] :=
    congrArg (· ++ []) (congrArg Prod.snd (Option.some.inj hcut))
  exact last_of_sectionText hsection hlines hlines' hlast rfl hcolon List.not_mem_nil

theorem exists_represents (bytes : List Byte) : ∃ b : Buffer, b.Represents bytes := by
  obtain ⟨b, -, hb⟩ := new_represents kinitialSize
  obtain ⟨b', -, hb'⟩ := append_represents hb bytes
  exact ⟨b', hb'⟩

theorem not_endsAtEmptyLine {bytes : List Byte} (h : HasBareLine bytes) :
    ¬ EndsAtEmptyLine bytes := by
  obtain ⟨l, headers, last, rest, rfl, hhead, hline, hlines, hlast, hcolon, hne⟩ := h
  intro hends
  obtain ⟨b, hb⟩ := exists_represents (l.text ++ cr :: lf :: (sectionText headers last ++ rest))
  obtain ⟨f, hbare⟩ := reads_bareLine hhead hline hlines hlast hcolon rest
  obtain ⟨r, hr, q', hrep, hreads⟩ := HttpContext.parseRequest_reads (c := .new) .invalid
    hb clean_new
  obtain ⟨-, hreader, rfl⟩ := hreads.deterministic hbare
  have hg : r.2.1.gotAll = true := decide_eq_true (congrArg Reader.state hreader)
  obtain ⟨consumed, heq, htext⟩ := (hends b .invalid hb).of_eq hr hg
  have hconsumed : l.text ++ cr :: lf :: sectionText headers last = consumed := by
    rw [hrep.2] at heq
    apply (List.append_left_inj q').mp
    rw [← heq]
    simp
  rw [← hconsumed] at htext
  exact hne (nil_of_isRequestText htext hline hlines hlast hcolon)

/-- A completed request ends at an empty line unless a bare line comes first. -/
theorem ends_at_empty_line_iff (bytes : List Byte) :
    EndsAtEmptyLine bytes ↔ ¬ HasBareLine bytes := by
  constructor
  · exact fun h hbare => not_endsAtEmptyLine hbare h
  · intro h b t hb
    refine (HttpContext.parseRequest_reads (c := .new) t hb clean_new).mono ?_
    rintro r ⟨q', hrep, hreads⟩ hg
    obtain ⟨l, headers, last, rfl, hhead, hline, hlines, hlast, hcolon⟩ :=
      hreads.request_consumed (of_decide_eq_true hg)
    have hnil : last = [] := by
      by_contra hne
      exact h ⟨l, headers, last, q', rfl, hhead, hline, hlines, hlast, hcolon, hne⟩
    subst hnil
    refine ⟨l.text ++ cr :: lf :: sectionText headers [], ?_, l.text, headers, rfl, hline, hlines⟩
    rw [hrep.2]
    simp

/-- `GET / HTTP/1.1`, a line `x` without a colon, and `y`. -/
def smuggling : List Byte :=
  ascii ['G', 'E', 'T', ' ', '/', ' ', 'H', 'T', 'T', 'P', '/', '1', '.', '1', '\r', '\n',
    'x', '\r', '\n', 'y']

/-- The line `x` completes the request, and `y` is left to be read as the next one. -/
theorem bare_line_completes_request :
    (∃ r, HttpContext.new.parseRequest ⟨List.replicate 8 0 ++ smuggling, 8, 28⟩ .invalid = .ok r ∧
      r.2.1.gotAll = true ∧ r.2.2.content = ascii ['y']) ∧ ¬ EndsAtEmptyLine smuggling := by
  constructor
  · exact ⟨_, rfl, rfl, rfl⟩
  · refine not_endsAtEmptyLine ⟨⟨.kget, ascii ['G', 'E', 'T'], ascii ['/'], '1', by decide,
      by decide, .inr rfl⟩, [], ascii ['x'], ascii ['y'], rfl, by decide, by decide, ?_, by decide,
      by decide, by decide⟩
    exact fun _ hmem => absurd hmem List.not_mem_nil

end Dwater
