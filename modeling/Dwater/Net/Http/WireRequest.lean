import Dwater.Net.Http.Safety

/-! # Requests on the wire

A well-formed request and its bytes. Read from its bytes it comes back with the same
method, target and version and with the last value of every header, whatever bytes
follow, unless its method is `HEAD`: that request line is rejected.
-/

set_option autoImplicit false
namespace Dwater

open Search RequestFields

def NoLineEnd (bytes : List Byte) : Prop := cr ∉ bytes ∧ lf ∉ bytes

/-- A well-formed request. The query is empty or starts with its question mark. -/
structure WireRequest where
  method : Method
  path : List Byte
  query : List Byte
  http11 : Bool
  headers : List (List Byte × List Byte)
  method_ne : method ≠ .kinvalid
  path_ok : NoLineEnd path ∧ space ∉ path ∧ question ∉ path
  query_ok : NoLineEnd query ∧ space ∉ query ∧ (query = [] ∨ ∃ rest, query = question :: rest)
  headers_ok : ∀ h ∈ headers, NoLineEnd h.1 ∧ colon ∉ h.1 ∧ NoLineEnd h.2

namespace WireRequest

def digit (r : WireRequest) : Char := if r.http11 then '1' else '0'

def version (r : WireRequest) : Version := if r.http11 then .khttp11 else .khttp10

def requestLine (r : WireRequest) : List Byte :=
  r.method.string ++ space :: (r.path ++ r.query ++ space :: versionWord r.digit)

def headerLine (h : List Byte × List Byte) : List Byte := h.1 ++ colon :: h.2

def encodeHeaders (headers : List (List Byte × List Byte)) : List Byte :=
  headers.flatMap (fun h => headerLine h ++ [cr, lf]) ++ [cr, lf]

def encode (r : WireRequest) : List Byte :=
  r.requestLine ++ cr :: lf :: encodeHeaders r.headers

def headerMap (headers : List (List Byte × List Byte)) (m : HeaderMap) : HeaderMap :=
  headers.foldl (fun m h => m.set h.1 (trim h.2)) m

def fields (r : WireRequest) : RequestFields :=
  { method := r.method, version := r.version, path := r.path, query := r.query,
    headers := headerMap r.headers [] }

variable {r : WireRequest} {rest : List Byte}

theorem noLineEnd_append {p q : List Byte} (hp : NoLineEnd p) (hq : NoLineEnd q) :
    NoLineEnd (p ++ q) := by
  constructor
  · simp [hp.1, hq.1]
  · simp [hp.2, hq.2]

theorem noLineEnd_cons {b : Byte} {q : List Byte} (hc : cr ≠ b) (hl : lf ≠ b)
    (hq : NoLineEnd q) : NoLineEnd (b :: q) := by
  constructor
  · simp [hc, hq.1]
  · simp [hl, hq.2]

theorem noLineEnd_method (m : Method) : NoLineEnd m.string := by
  cases m <;> exact ⟨by decide, by decide⟩

theorem noLineEnd_version (r : WireRequest) : NoLineEnd (versionWord r.digit) := by
  unfold digit
  split
  · exact ⟨by decide, by decide⟩
  · exact ⟨by decide, by decide⟩

theorem noLineEnd_requestLine (r : WireRequest) : NoLineEnd r.requestLine := by
  refine noLineEnd_append (noLineEnd_method _) (noLineEnd_cons (by decide) (by decide) ?_)
  refine noLineEnd_append (noLineEnd_append r.path_ok.1 r.query_ok.1) ?_
  exact noLineEnd_cons (by decide) (by decide) (noLineEnd_version r)

theorem noLineEnd_headerLine {h : List Byte × List Byte} (hn : NoLineEnd h.1)
    (hv : NoLineEnd h.2) : NoLineEnd (headerLine h) :=
  noLineEnd_append hn (noLineEnd_cons (by decide) (by decide) hv)

theorem cutPair_requestLine (r : WireRequest) (rest : List Byte) :
    cutPair cr lf (r.encode ++ rest) =
      some (r.requestLine, encodeHeaders r.headers ++ rest) := by
  unfold encode
  rw [List.append_assoc]
  exact cutPair_append_cons (noLineEnd_requestLine r).1

theorem space_notMem_method (m : Method) : space ∉ m.string := by
  cases m <;> decide

theorem acceptedMethod_string (h : r.method ≠ .khead) :
    acceptedMethod r.method.string = some r.method := by
  have hne := r.method_ne
  cases hm : r.method with
  | kinvalid => exact absurd hm hne
  | khead => exact absurd hm h
  | _ => decide

theorem setTarget_target (f : RequestFields) (hq : f.query = []) (r : WireRequest) :
    f.setTarget (r.path ++ r.query) = { f with path := r.path, query := r.query } := by
  unfold setTarget
  rcases r.query_ok.2.2 with hnil | ⟨rest, hrest⟩
  · have hcut : cut question (r.path ++ r.query) = none := by
      rw [hnil, List.append_nil, cut_eq_none_iff]
      exact r.path_ok.2.2
    rw [hcut, hnil, List.append_nil]
    simp only [setPath, ← hq]
  · rw [hrest, cut_append_cons r.path_ok.2.2]
    rfl

theorem versionOf_word (r : WireRequest) : versionOf (versionWord r.digit) = some r.version := by
  unfold digit version
  split
  · decide
  · decide

theorem processRequestLine_requestLine (h : r.method ≠ .khead) :
    RequestFields.new.processRequestLine r.requestLine =
      .ok (true, { r.fields with headers := [] }) := by
  have htarget : space ∉ r.path ++ r.query := by
    simp [r.path_ok.2.1, r.query_ok.2.1]
  have hnew : RequestFields.new.method = .kinvalid := rfl
  simp only [requestLine, processRequestLine, cut_append_cons (space_notMem_method _),
    setMethod_eq hnew, acceptedMethod_string h, bind, Except.bind, if_true,
    cut_append_cons htarget, versionOf_word]
  rw [setTarget_target _ rfl]
  rfl

/-- A `HEAD` line is rejected and leaves no trace. -/
theorem processRequestLine_head (h : r.method = .khead) :
    RequestFields.new.processRequestLine r.requestLine = .ok (false, .new) := by
  have hacc : acceptedMethod Method.khead.string = none := by decide
  have hnew : RequestFields.new.method = .kinvalid := rfl
  simp only [requestLine, processRequestLine, h, cut_append_cons (space_notMem_method _),
    setMethod_eq hnew, hacc]
  rfl

theorem reads_headers (headers : List (List Byte × List Byte))
    (hok : ∀ h ∈ headers, NoLineEnd h.1 ∧ colon ∉ h.1 ∧ NoLineEnd h.2) (f : RequestFields)
    (rest : List Byte) :
    Reads ⟨.kexpectHeaders, f⟩ (encodeHeaders headers ++ rest) true
      ⟨.kGotAll, { f with headers := headerMap headers f.headers }⟩ rest := by
  induction headers generalizing f with
  | nil => exact .ended (cutPair_append_cons (p := []) (by simp)) rfl
  | cons h headers ih =>
    obtain ⟨hn, hcol, hv⟩ := hok h List.mem_cons_self
    have hq : cutPair cr lf (encodeHeaders (h :: headers) ++ rest) =
        some (headerLine h, encodeHeaders headers ++ rest) := by
      have heq : encodeHeaders (h :: headers) ++ rest =
          headerLine h ++ cr :: lf :: (encodeHeaders headers ++ rest) := by
        simp [encodeHeaders]
      rw [heq]
      exact cutPair_append_cons (noLineEnd_headerLine hn hv).1
    exact .header hq (cut_append_cons hcol)
      (ih (fun h' hh' => hok h' (List.mem_cons_of_mem _ hh')) (f.addHeader h.1 h.2))

/-- The bytes of a request are read as that request. -/
theorem reads_encode (h : r.method ≠ .khead) (rest : List Byte) :
    Reads .new (r.encode ++ rest) true ⟨.kGotAll, r.fields⟩ rest :=
  .requestLine (cutPair_requestLine r rest) (processRequestLine_requestLine h)
    (reads_headers r.headers r.headers_ok _ rest)

theorem reads_head (h : r.method = .khead) (rest : List Byte) :
    Reads .new (r.encode ++ rest) false .new (r.encode ++ rest) :=
  .rejected (cutPair_requestLine r rest) (processRequestLine_head h)

theorem length_encode_pos (r : WireRequest) : 0 < r.encode.length := by
  simp only [encode, List.length_append, List.length_cons]
  omega

end WireRequest

end Dwater
