import Dwater.Net.Http.Reading

/-! # Safety of the message callback

A request line with an accepted method and a malformed rest is rejected after
`method_` has been set, and it stays at the front of the input buffer. The next call
reads it again and fails the assertion of `SetMethod`. Without such a line, on any
bytes in any pieces, every call returns.
-/

set_option autoImplicit false
namespace Dwater

open Fallible Search Buffer

def versionWord (d : Char) : List Byte := ascii ['H', 'T', 'T', 'P', '/', '1', '.', d]

def EndsWell (rest : List Byte) : Prop :=
  ∃ target d, space ∉ target ∧ (d = '0' ∨ d = '1') ∧ rest = target ++ space :: versionWord d

/-- A line that starts with `GET`, `POST`, `PUT` or `DELETE` and a space, and goes on with
anything but a target and a version. -/
def HalfAccepted (line : List Byte) : Prop :=
  ∃ m rest, line = m ++ space :: rest ∧ acceptedMethod m ≠ none ∧ ¬ EndsWell rest

namespace RequestFields

variable {r f : RequestFields} {line word m rest : List Byte}

theorem versionOf_versionWord {d : Char} (hd : d = '0' ∨ d = '1') :
    versionOf (versionWord d) ≠ none := by
  rcases hd with rfl | rfl
  · decide
  · decide

theorem versionOf_ne_none (h : versionOf word ≠ none) :
    ∃ d, (d = '0' ∨ d = '1') ∧ word = versionWord d := by
  unfold versionOf at h
  split at h
  · next hw =>
    have hsplit : word = word.take 7 ++ word.drop 7 := (List.take_append_drop 7 word).symm
    rw [hw.2] at hsplit
    split at h
    · next hd =>
      rw [hd] at hsplit
      exact ⟨'1', .inr rfl, hsplit⟩
    · split at h
      · next hd =>
        rw [hd] at hsplit
        exact ⟨'0', .inl rfl, hsplit⟩
      · exact absurd rfl h
  · exact absurd rfl h

theorem space_notMem_of_accepted (h : acceptedMethod m ≠ none) : space ∉ m := by
  unfold acceptedMethod at h
  split at h
  · next hm => rw [hm]; decide
  · split at h
    · next hm => rw [hm]; decide
    · split at h
      · next hm => rw [hm]; decide
      · split at h
        · next hm => rw [hm]; decide
        · exact absurd rfl h

theorem accepted_ne_kinvalid {method : Method} (h : acceptedMethod m = some method) :
    method ≠ .kinvalid := by
  unfold acceptedMethod at h
  repeat' split at h
  all_goals cases h
  all_goals decide

theorem setTarget_method (target : List Byte) : (r.setTarget target).method = r.method := by
  unfold setTarget
  split <;> rfl

theorem endsWell_iff : EndsWell rest ↔
    ∃ target word, cut space rest = some (target, word) ∧ versionOf word ≠ none := by
  constructor
  · rintro ⟨target, d, ht, hd, rfl⟩
    exact ⟨target, versionWord d, cut_append_cons ht, versionOf_versionWord hd⟩
  · rintro ⟨target, word, hcut, hv⟩
    obtain ⟨heq, ht⟩ := cut_eq_some hcut
    obtain ⟨d, hd, rfl⟩ := versionOf_ne_none hv
    exact ⟨target, d, ht, hd, heq⟩

/-- A rejected line has set the method only if it is half accepted, and otherwise nothing. -/
theorem processRequestLine_rejected (h : r.method = .kinvalid)
    (hp : r.processRequestLine line = .ok (false, f)) :
    (HalfAccepted line ∧ f.method ≠ .kinvalid ∧ space ∈ line) ∨
      (¬ HalfAccepted line ∧ f = r) := by
  unfold processRequestLine at hp
  cases hcut : cut space line with
  | none =>
    rw [hcut] at hp
    cases hp
    refine .inr ⟨?_, rfl⟩
    rintro ⟨m, rest, rfl, -⟩
    exact cut_eq_none_iff.mp hcut (by simp)
  | some parts =>
    obtain ⟨m, rest⟩ := parts
    obtain ⟨rfl, hm⟩ := cut_eq_some hcut
    simp only [hcut, setMethod_eq h] at hp
    cases hacc : acceptedMethod m with
    | none =>
      rw [hacc] at hp
      cases hp
      refine .inr ⟨?_, rfl⟩
      rintro ⟨m', rest', heq, hacc', -⟩
      have hcut' := cut_append_cons (q := rest') (space_notMem_of_accepted hacc')
      rw [← heq, hcut] at hcut'
      cases hcut'
      exact hacc' hacc
    | some method =>
      rw [hacc] at hp
      -- every way to be rejected from here on leaves the method set
      have hhalf : ¬ EndsWell rest → HalfAccepted (m ++ space :: rest) :=
        fun hne => ⟨m, rest, rfl, by simp [hacc], hne⟩
      have hmethod := accepted_ne_kinvalid hacc
      have hmem : space ∈ m ++ space :: rest := by simp
      cases hcut₂ : cut space rest with
      | none =>
        simp only [hcut₂] at hp
        cases hp
        refine .inl ⟨hhalf ?_, hmethod, hmem⟩
        rw [endsWell_iff, hcut₂]
        rintro ⟨target, word, hcut₃, -⟩
        cases hcut₃
      | some words =>
        obtain ⟨target, word⟩ := words
        cases hv : versionOf word with
        | some version => simp [hcut₂, hv, bind, Except.bind, pure, Except.pure] at hp
        | none =>
          simp only [hcut₂, bind, Except.bind, if_true, hv] at hp
          cases hp
          refine .inl ⟨hhalf ?_, ?_, hmem⟩
          · rw [endsWell_iff, hcut₂]
            rintro ⟨target', word', hcut₃, hv'⟩
            cases hcut₃
            exact hv' hv
          · rw [setTarget_method]
            exact hmethod

end RequestFields

open RequestFields in
theorem not_halfAccepted {r f : RequestFields} {line : List Byte} (h : r.method = .kinvalid)
    (hp : r.processRequestLine line = .ok (true, f)) : ¬ HalfAccepted line := by
  rintro ⟨m, rest, rfl, hacc, hne⟩
  refine hne (endsWell_iff.mpr ?_)
  obtain ⟨method, hm⟩ := Option.ne_none_iff_exists'.mp hacc
  simp only [processRequestLine, cut_append_cons (space_notMem_of_accepted hacc), setMethod_eq h,
    hm, bind, Except.bind, if_true] at hp
  cases hcut : cut space rest with
  | none =>
    rw [hcut] at hp
    cases hp
  | some words =>
    obtain ⟨target, word⟩ := words
    refine ⟨target, word, rfl, fun hv => ?_⟩
    simp only [hcut, hv] at hp
    cases hp

/-- A clean reader ends clean or with a complete request, unless it rejects the first line. -/
theorem Reads.outcome {c c' : Reader} {q q' : List Byte} {ok : Bool} (h : Reads c q ok c' q')
    (hc : c.Clean) :
    (ok = true ∧ (c'.state = .kGotAll ∨ c'.Clean) ∧ (c.state = .kexpectRequestLine →
      ∀ line rest, cutPair cr lf q = some (line, rest) → ¬ HalfAccepted line)) ∨
    (ok = false ∧ c.state = .kexpectRequestLine ∧ c'.state = .kexpectRequestLine ∧ q' = q ∧
      ∃ line rest, cutPair cr lf q = some (line, rest) ∧
        c.fields.processRequestLine line = .ok (false, c'.fields)) := by
  cases h with
  | blocked hr hq =>
    refine .inl ⟨rfl, .inr hc, fun _ line rest hq' => ?_⟩
    rw [hq] at hq'
    cases hq'
  | rejected hq hp => exact .inr ⟨rfl, rfl, rfl, rfl, _, _, hq, hp⟩
  | requestLine hq hp hreads =>
    obtain ⟨hok, hs⟩ := hreads.ok_of_headers rfl
    refine .inl ⟨hok, hs.imp id fun hs => ⟨.inr hs, fun hs' => ?_⟩, fun _ line rest hq' => ?_⟩
    · rw [hs] at hs'
      cases hs'
    · cases hq.symm.trans hq'
      exact not_halfAccepted (hc.2 rfl) hp
  | header hq hcut hreads =>
    obtain ⟨hok, hs⟩ := hreads.ok_of_headers rfl
    refine .inl ⟨hok, hs.imp id fun hs => ⟨.inr hs, fun hs' => ?_⟩, fun hs' => by cases hs'⟩
    rw [hs] at hs'
    cases hs'
  | ended hq hcut => exact .inl ⟨rfl, .inl rfl, fun hs => by cases hs⟩

namespace HttpConnection

variable {c c' : HttpConnection} {x : List Byte × Timestamp}

/-- While a request line is expected, the first complete line of the input is half accepted. -/
def HalfAcceptedLine (c : HttpConnection) (x : List Byte × Timestamp) : Prop :=
  c.context.state = .kexpectRequestLine ∧ ∃ line rest,
    cutPair cr lf (c.inputBuffer.content ++ x.1) = some (line, rest) ∧ HalfAccepted line

/-- Between calls: the buffer is sound and the context ready for the next line. -/
structure Ready (c : HttpConnection) : Prop where
  input : c.inputBuffer.Inv
  clean : c.context.reader.Clean

/-- A half accepted line is at the front of the buffer and its method in the request. -/
structure Stuck (c : HttpConnection) : Prop where
  input : c.inputBuffer.Inv
  state_eq : c.context.state = .kexpectRequestLine
  method_ne : c.context.request.method ≠ .kinvalid
  line : ∃ line rest, cutPair cr lf c.inputBuffer.content = some (line, rest) ∧ space ∈ line

theorem new_ready {b : Buffer} (hb : b.Inv) : (new b).Ready :=
  ⟨hb, .inl rfl, fun _ => rfl⟩

/-- The requests passed to the user's callback, without their receive times. -/
def readRequests (c : HttpConnection) : List RequestFields :=
  c.requests.map HttpRequest.toRequestFields

theorem onMessage_of_parse {t : Timestamp} {ok : Bool} {context : HttpContext} {b : Buffer}
    (h : c.context.parseRequest c.inputBuffer t = .ok (ok, context, b)) :
    ∃ c', c.onMessage t = .ok c' ∧ c'.inputBuffer = b ∧
      c'.context = (if context.gotAll then .new else context) ∧
      c'.readRequests = c.readRequests ++
        if context.gotAll then [context.request.toRequestFields] else [] := by
  have hbad : requests ⟨context, b, if ok then c.actions else c.actions ++ [.badRequest]⟩ =
      c.requests := by
    cases ok <;> simp [requests]
  have hbad' : readRequests ⟨context, b, if ok then c.actions else c.actions ++ [.badRequest]⟩ =
      c.readRequests := congrArg (List.map HttpRequest.toRequestFields) hbad
  unfold onMessage
  rw [h]
  simp only [bind, Except.bind]
  split
  · refine ⟨_, rfl, rfl, rfl, ?_⟩
    simp only [readRequests, requests, onRequest, List.filterMap_append, List.map_append]
    exact congrArg (· ++ _) hbad'
  · exact ⟨_, rfl, rfl, rfl, by rw [List.append_nil]; exact hbad'⟩

theorem receive_reads (h : c.Ready) (x : List Byte × Timestamp) :
    ∃ ok d q c', c.receive x = .ok c' ∧
      Reads c.context.reader (c.inputBuffer.content ++ x.1) ok d q ∧ c'.inputBuffer.Represents q ∧
      c'.context.reader = (if d.state = .kGotAll then .new else d) ∧
      c'.readRequests = c.readRequests ++ if d.state = .kGotAll then [d.fields] else [] := by
  obtain ⟨b, hb, hrep⟩ := append_represents h.input.represents x.1
  obtain ⟨⟨ok, context, b'⟩, hparse, q', hq', hreads⟩ :=
    HttpContext.parseRequest_reads x.2 hrep h.clean
  obtain ⟨c', hmsg, hbuf, hctx, hreq⟩ :=
    onMessage_of_parse (c := { c with inputBuffer := b }) hparse
  have hstep : c.receive x = .ok c' := by
    unfold receive
    rw [hb]
    exact hmsg
  refine ⟨ok, context.reader, q', c', hstep, hreads, hbuf ▸ hq', ?_, ?_⟩
  · rw [hctx]
    by_cases hg : context.state = .kGotAll
    · simp only [HttpContext.gotAll, hg, HttpContext.reader]
      rfl
    · simp [HttpContext.gotAll, hg, HttpContext.reader]
  · rw [hreq]
    by_cases hg : context.state = .kGotAll
    · simp only [HttpContext.gotAll, hg, HttpContext.reader]
      rfl
    · simp [HttpContext.gotAll, hg, HttpContext.reader]
      rfl

theorem clean_new : Reader.new.Clean := ⟨.inl rfl, fun _ => rfl⟩

/-- A half accepted line leaves the connection stuck, anything else leaves it ready. -/
theorem receive_ready (h : c.Ready) (x : List Byte × Timestamp) :
    Yields (c.receive x) fun c' =>
      (¬ c.HalfAcceptedLine x ∧ c'.Ready) ∨ (c.HalfAcceptedLine x ∧ c'.Stuck) := by
  obtain ⟨ok, d, q', c', hstep, hreads, hq', hctx, -⟩ := receive_reads h x
  refine ⟨c', hstep, ?_⟩
  rcases hreads.outcome h.clean with ⟨-, hstate, hline⟩ | ⟨-, hs, hs', rfl, line, rest, hq, hp⟩
  · refine .inl ⟨?_, hq'.1, ?_⟩
    · rintro ⟨hs, line, rest, hq, hhalf⟩
      exact hline hs line rest hq hhalf
    · rw [hctx]
      split
      · exact clean_new
      · next hg => exact hstate.resolve_left hg
  · rw [if_neg (by rw [hs']; decide)] at hctx
    have hstate : c'.context.state = .kexpectRequestLine := (congrArg Reader.state hctx).trans hs'
    have hfields : c'.context.request.toRequestFields = d.fields := congrArg Reader.fields hctx
    rcases RequestFields.processRequestLine_rejected (h.clean.2 hs) hp with
      ⟨hhalf, hmethod, hspace⟩ | ⟨hhalf, hf⟩
    · refine .inr ⟨⟨hs, line, rest, hq, hhalf⟩, hq'.1, hstate, ?_, line, rest, ?_, hspace⟩
      · rwa [hfields]
      · rw [hq'.2]
        exact hq
    · refine .inl ⟨?_, hq'.1, .inl hstate, fun _ => ?_⟩
      · rintro ⟨-, line', rest', hq₂, hhalf'⟩
        cases hq.symm.trans hq₂
        exact hhalf hhalf'
      · rw [hctx, hf]
        exact h.clean.2 hs

theorem receive_stuck (h : c.Stuck) (x : List Byte × Timestamp) :
    c.receive x = .error (.assertion .http_request_h 51) := by
  obtain ⟨line, rest, hq, hspace⟩ := h.line
  obtain ⟨b, hb, hrep⟩ := append_represents h.input.represents x.1
  have hq' := cutPair_append hq x.1
  have hprocess : c.context.request.processRequestLine line =
      .error (.assertion .http_request_h 51) := by
    cases hcut : cut space line with
    | none => exact absurd hspace (cut_eq_none_iff.mp hcut)
    | some parts =>
      simp only [RequestFields.processRequestLine, hcut,
        RequestFields.setMethod_fails h.method_ne]
      rfl
  have hround : Parsing.round x.2 ⟨c.context, b, true, true⟩ =
      .error (.assertion .http_request_h 51) := by
    have hfind := Parsing.findCRLF_eq (p := ⟨c.context, b, true, true⟩) hrep
    simp only [Parsing.round, h.state_eq, Parsing.requestLine, hfind, hq', Option.map_some,
      hrep.2, Parsing.take_line hq', hprocess]
    rfl
  simp only [receive, hb, onMessage, HttpContext.parseRequest, bind, Except.bind]
  rw [Parsing.loop_succ rfl, hround]
  rfl

/-- However the chunks are cut, every call returns if and only if no call but the last finds a
half accepted line. -/
theorem run_yields_iff (h : c.Ready) (chunks : List (List Byte × Timestamp))
    (last : List Byte × Timestamp) :
    Yields (run receive c (chunks ++ [last])) (fun _ => True) ↔
      Along receive (fun c x => ¬ c.HalfAcceptedLine x) c chunks := by
  induction chunks generalizing c with
  | nil =>
    obtain ⟨c', hc', -⟩ := receive_ready h last
    refine ⟨fun _ => trivial, fun _ => ?_⟩
    rw [List.nil_append, run_cons_of_ok hc']
    exact ⟨c', rfl, trivial⟩
  | cons x chunks ih =>
    obtain ⟨c', hc', hcases⟩ := receive_ready h x
    rw [List.cons_append, run_cons_of_ok hc']
    rcases hcases with ⟨hno, hready⟩ | ⟨hhalf, hstuck⟩
    · rw [ih hready]
      constructor
      · intro hrun
        refine ⟨hno, fun s hs => ?_⟩
        cases hc'.symm.trans hs
        exact hrun
      · exact fun halong => halong.2 c' hc'
    · constructor
      · intro hrun
        have herr : ∀ y ys, run receive c' (y :: ys) = .error (.assertion .http_request_h 51) := by
          intro y ys
          simp only [run, receive_stuck hstuck]
          rfl
        cases chunks with
        | nil =>
          rw [List.nil_append, herr] at hrun
          exact absurd hrun yields_error
        | cons y ys =>
          rw [List.cons_append, herr] at hrun
          exact absurd hrun yields_error
      · exact fun halong => absurd hhalf halong.1

/--
On one connection, whatever chunks arrive, every call of `ParseRequest` returns and no assertion
fails if and only if no call before the last finds, where it expects a request line, a line with
an accepted method and a malformed rest.
-/
theorem onMessage_safe_iff (b : Buffer) (hb : b.Represents [])
    (chunks : List (List Byte × Timestamp)) (last : List Byte × Timestamp) :
    Yields (run receive (new b) (chunks ++ [last])) (fun _ => True) ↔
      Along receive (fun c x => ¬ c.HalfAcceptedLine x) (new b) chunks :=
  run_yields_iff (new_ready hb.1) chunks last

theorem onMessage_safe_partial_line :
    Yields (run receive (new ⟨List.replicate 8 0, 8, 8⟩)
      ([(ascii ['G', 'E'], .invalid)] ++ [(ascii ['T'], .invalid)])) (fun _ => True) := by
  refine (onMessage_safe_iff _ ⟨⟨by decide, by decide, by decide⟩, rfl⟩ _ _).mpr ?_
  refine ⟨?_, fun _ _ => trivial⟩
  rintro ⟨-, line, rest, hq, -⟩
  cases hq

/-- After `GET x` and a line end, any further byte fails the assertion of `SetMethod`. -/
theorem onMessage_fails_after_half_accepted_line :
    ¬ Yields (Buffer.new kinitialSize >>= fun b => run receive (new b)
      ([(ascii ['G', 'E', 'T', ' ', 'x'] ++ [cr, lf], .invalid)] ++ [([0], .invalid)]))
      (fun _ => True) := by
  obtain ⟨b, hb, hrep⟩ := new_represents kinitialSize
  rw [hb]
  refine fun hrun => ((run_yields_iff (new_ready hrep.1) _ _).mp hrun).1 ?_
  refine ⟨rfl, ascii ['G', 'E', 'T', ' ', 'x'], [], ?_, ascii ['G', 'E', 'T'], ascii ['x'],
    rfl, ?_, ?_⟩
  · have hc : (new b).inputBuffer.content = [] := hrep.2
    rw [hc]
    decide
  · decide
  · rw [RequestFields.endsWell_iff]
    rintro ⟨target, word, hcut, -⟩
    cases hcut

end HttpConnection

end Dwater
