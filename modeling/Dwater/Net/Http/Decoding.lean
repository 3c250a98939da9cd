import Dwater.Net.Http.Headers
import Dwater.Net.Http.WireRequest

/-! # Decoding a request

`ParseRequest` on the bytes of a request gives the request back, with the last value of every
header and without the white space around it, and leaves what follows in the buffer.
-/

set_option autoImplicit false
namespace Dwater

open Fallible RequestFields WireRequest

def lastValue (headers : List (List Byte × List Byte)) (name : List Byte) : Option (List Byte) :=
  headers.reverse.lookup name

def AcceptsMethod (m : List Byte) : Prop :=
  Yields (RequestFields.new.setMethod m) fun r => r.1 = true

theorem string_of_accepted {m : List Byte} {method : Method} (h : acceptedMethod m = some method) :
    method.string = m ∧ method ≠ .kinvalid ∧ method ≠ .khead := by
  unfold acceptedMethod at h
  split_ifs at h with hget hpost hput hdelete
  · cases h
    exact ⟨hget.symm, by decide, by decide⟩
  · cases h
    exact ⟨hpost.symm, by decide, by decide⟩
  · cases h
    exact ⟨hput.symm, by decide, by decide⟩
  · cases h
    exact ⟨hdelete.symm, by decide, by decide⟩

theorem exists_method {m : List Byte} (h : AcceptsMethod m) :
    ∃ method : Method, method.string = m ∧ method ≠ .kinvalid ∧ method ≠ .khead := by
  unfold AcceptsMethod at h
  rw [setMethod_eq rfl, yields_ok] at h
  cases hm : acceptedMethod m with
  | none =>
    rw [hm] at h
    cases h
  | some method => exact ⟨method, string_of_accepted hm⟩

theorem lookup_headerMap (headers : List (List Byte × List Byte)) (m : HeaderMap)
    (name : List Byte) :
    (headerMap headers m).lookup name =
      ((lastValue headers name).map trim).or (m.lookup name) := by
  induction headers generalizing m with
  | nil => rfl
  | cons h headers ih =>
    obtain ⟨field, value⟩ := h
    have hlast : lastValue ((field, value) :: headers) name =
        (lastValue headers name).or (List.lookup name [(field, value)]) := by
      rw [lastValue, List.reverse_cons, List.lookup_append]
      rfl
    change (headerMap headers (m.set field (trim value))).lookup name = _
    rw [ih, HeaderMap.lookup_set, hlast]
    by_cases hname : name = field
    · rw [if_pos hname, hname, HeaderMap.lookup_cons_self]
      cases lastValue headers field <;> rfl
    · rw [if_neg hname, HeaderMap.lookup_cons_of_ne hname]
      cases lastValue headers name <;> rfl

theorem sorted_headerMap (headers : List (List Byte × List Byte)) {m : HeaderMap}
    (h : m.Sorted) : (headerMap headers m).Sorted := by
  induction headers generalizing m with
  | nil => exact h
  | cons head headers ih => exact ih (h.set head.1 (trim head.2))

/-- The request line, the header lines, the empty line and what follows. -/
def requestBytes (m path query : List Byte) (http11 : Bool)
    (headers : List (List Byte × List Byte)) (rest : List Byte) : List Byte :=
  m ++ [space] ++ path ++ query ++ [space] ++ versionWord (if http11 then '1' else '0') ++
    [cr, lf] ++ headers.flatMap (fun h => h.1 ++ [colon] ++ h.2 ++ [cr, lf]) ++ [cr, lf] ++ rest

theorem encode_eq (r : WireRequest) (rest : List Byte) :
    r.encode ++ rest =
      requestBytes r.method.string r.path r.query r.http11 r.headers rest := by
  simp [encode, requestLine, requestBytes, encodeHeaders, WireRequest.headerLine, digit]

/-- What `ParseRequest` returns for the bytes of a request. -/
structure Decoded (m path query : List Byte) (http11 : Bool)
    (headers : List (List Byte × List Byte)) (rest : List Byte)
    (r : Bool × HttpContext × Buffer) : Prop where
  ok : r.1 = true
  gotAll : r.2.1.gotAll = true
  method : r.2.1.request.method.string = m
  path : r.2.1.request.path = path
  query : r.2.1.request.query = query
  version : r.2.1.request.version = if http11 then .khttp11 else .khttp10
  sorted : r.2.1.request.headers.Sorted

  /-- a name has the last value without the white space around it -/
  present : ∀ name value, lastValue headers name = some value →
    ∃ v, r.2.1.request.headers.lookup name = some v ∧ Stripped value v

  /-- and no other name has a value -/
  absent : ∀ name, lastValue headers name = none → r.2.1.request.headers.lookup name = none

  rest : r.2.2.Represents rest

/-- `ParseRequest` of a new context inverts the encoding of a request, whatever follows it in the
buffer. -/
theorem request_decoded {m path query rest : List Byte} {http11 : Bool}
    {headers : List (List Byte × List Byte)} {b : Buffer} (t : Timestamp) (hm : AcceptsMethod m)
    (hpath : NoLineEnd path ∧ space ∉ path ∧ question ∉ path)
    (hquery : NoLineEnd query ∧ space ∉ query ∧ (query = [] ∨ ∃ text, query = question :: text))
    (hheaders : ∀ h ∈ headers, NoLineEnd h.1 ∧ colon ∉ h.1 ∧ NoLineEnd h.2)
    (hb : b.Represents (requestBytes m path query http11 headers rest)) :
    Yields (HttpContext.new.parseRequest b t) (Decoded m path query http11 headers rest) := by
  obtain ⟨method, rfl, hne, hhead⟩ := exists_method hm
  let r : WireRequest := ⟨method, path, query, http11, headers, hne, hpath, hquery, hheaders⟩
  rw [← encode_eq r] at hb
  refine (HttpContext.parseRequest_reads t hb ⟨.inl rfl, fun _ => rfl⟩).mono ?_
  rintro ⟨ok, context, b'⟩ ⟨q', hb', hreads⟩
  obtain ⟨rfl, hcontext, rfl⟩ := hreads.deterministic (reads_encode (r := r) hhead rest)
  obtain ⟨hstate, hfields⟩ := Reader.mk.inj hcontext
  have hheads : context.request.headers = headerMap headers [] :=
    congrArg RequestFields.headers hfields
  have hmap : ∀ name, context.request.headers.lookup name = (lastValue headers name).map trim := by
    intro name
    have hlookup := lookup_headerMap headers [] name
    rw [hheads]
    simpa using hlookup
  constructor
  · rfl
  · exact decide_eq_true hstate
  · exact congrArg (fun f => f.method.string) hfields
  · exact congrArg RequestFields.path hfields
  · exact congrArg RequestFields.query hfields
  · exact congrArg RequestFields.version hfields
  · rw [hheads]
    exact sorted_headerMap headers List.Pairwise.nil
  · intro name value hvalue
    exact ⟨trim value, by rw [hmap, hvalue]; rfl, trim_stripped value⟩
  · intro name hvalue
    rw [hmap, hvalue]
    rfl
  · exact hb'

/-- A request with a header given twice, followed by the start of another one. -/
theorem request_decoded_repeated_header :
    ∃ b : Buffer,
      Yields (HttpContext.new.parseRequest b .invalid) (Decoded (ascii ['G', 'E', 'T'])
        (ascii ['/', 'a']) (ascii ['?', 'q', '=', '1']) true
        [(ascii ['A'], ascii ['1']), (ascii ['B'], ascii [' ', 'x', ':', 'y', ' ']),
          (ascii ['A'], ascii [' ', '2'])] (ascii ['G', 'E'])) := by
  obtain ⟨b, -, hb⟩ := Buffer.new_represents 0
  obtain ⟨b', -, hb'⟩ := Buffer.append_represents hb (requestBytes (ascii ['G', 'E', 'T'])
    (ascii ['/', 'a']) (ascii ['?', 'q', '=', '1']) true
    [(ascii ['A'], ascii ['1']), (ascii ['B'], ascii [' ', 'x', ':', 'y', ' ']),
      (ascii ['A'], ascii [' ', '2'])] (ascii ['G', 'E']))
  refine ⟨b', request_decoded .invalid ⟨_, rfl, by decide⟩ ?_ ?_ ?_ hb'⟩
  · exact ⟨⟨by decide, by decide⟩, by decide, by decide⟩
  · exact ⟨⟨by decide, by decide⟩, by decide, .inr ⟨_, rfl⟩⟩
  · unfold NoLineEnd
    decide

end Dwater
