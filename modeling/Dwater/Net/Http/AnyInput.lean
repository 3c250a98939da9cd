import Dwater.Lib.Framing
import Dwater.Net.Http.Incremental
import Dwater.Net.Http.Service

/-! # Whatever a client sends

On arbitrary bytes in arbitrary chunks, as long as no assertion fails, an HTTP server answers the
requests at the front of the stream, in order. A malformed request line stays at the front of
the input buffer: from then on no request is delivered any more, and every call sends the
same answer, of which the client gets the first if the connection has not been closed before.
-/

set_option autoImplicit false
namespace Dwater

open Fallible Search Buffer

namespace MessageService

variable {σ : Type} {callback : MessageCallback σ}

/-- A callback that leaves everything as it is where the given one fails. -/
def rescued (callback : MessageCallback σ) : MessageCallback σ := fun app b t =>
  match callback app b t with
  | .ok r => .ok r
  | .error _ => .ok (app, b, [])

theorem rescued_of_ok {app : σ} {b : Buffer} {t : Timestamp} {r : σ × Buffer × List Reply}
    (h : callback app b t = .ok r) : rescued callback app b t = .ok r := by
  simp [rescued, h]

theorem rescued_of_error {app : σ} {b : Buffer} {t : Timestamp} {e : Fault}
    (h : callback app b t = .error e) : rescued callback app b t = .ok (app, b, []) := by
  simp [rescued, h]

theorem readable_rescued {s s' : MessageService σ} {r : ReadvResult} {t : Timestamp}
    (h : s.readable callback r t = .ok s') : s.readable (rescued callback) r t = .ok s' := by
  obtain ⟨⟨conn, fx⟩, hhandle, hrest⟩ := bind_eq_ok h
  rw [readable, hhandle, ok_bind]
  dsimp only at hrest ⊢
  split at hrest
  · next hmessage =>
    obtain ⟨⟨app, inputBuffer, replies⟩, hcall, hrest⟩ := bind_eq_ok hrest
    rw [if_pos hmessage, rescued_of_ok hcall]
    exact hrest
  · next hmessage =>
    rw [if_neg hmessage]
    exact hrest

theorem step_rescued {s s' : MessageService σ} {l : ServiceLabel}
    (h : s.step callback l = .ok s') : s.step (rescued callback) l = .ok s' := by
  cases l with
  | reply w => exact h
  | writable w => exact h
  | readable r t =>
    simp only [step] at h ⊢
    split at h
    · next hcan =>
      rw [if_pos hcan]
      exact readable_rescued h
    · next hcan =>
      rw [if_neg hcan]
      exact h

theorem reached_inv {I : σ → List (List Byte × Timestamp) → Buffer → List Reply → Prop}
    (hk : Keeps (rescued callback) I fun _ _ => True) {c : TcpConnection} {app : σ} (hc : Fresh c)
    (happ : I app [] c.inputBuffer []) {labels : List ServiceLabel} {s : MessageService σ}
    (h : Along (step callback) Allowed (new c app) labels)
    (hs : run (step callback) (new c app) labels = .ok s) : s.Inv I := by
  refine reached_invariant (fun s l s' hinv hl hstep => ?_) (hc.inv happ) h hs
  have hyields := step_inv hk s l hinv ⟨hl, fun _ _ => trivial⟩
  exact hyields.of_eq (step_rescued hstep)

end MessageService

namespace Reply

variable {xs ys : List Reply}

theorem sentBy_append : sentBy (xs ++ ys) =
    if shutdown ∈ xs then sentBy xs else sentBy xs ++ sentBy ys := by
  induction xs with
  | nil => simp [sentBy]
  | cons x xs ih =>
    cases x with
    | shutdown => simp [sentBy]
    | sendPiece message =>
      simp only [List.cons_append, sentBy, ih, List.mem_cons, reduceCtorEq, false_or]
      split <;> simp
    | sendBuffer content =>
      simp only [List.cons_append, sentBy, ih, List.mem_cons, reduceCtorEq, false_or]
      split <;> simp

end Reply

/-- The first complete line is not a request line. -/
def Malformed (q : List Byte) : Prop :=
  ∃ line rest f, cutPair cr lf q = some (line, rest) ∧
    RequestFields.new.processRequestLine line = .ok (false, f)

def requestFraming : Framing Byte RequestFields where
  Takes q f rest := Reads .new q true ⟨.kGotAll, f⟩ rest
  unique h h' := by
    obtain ⟨-, hd, hrest⟩ := h.deterministic h'
    exact ⟨congrArg Reader.fields hd, hrest⟩
  append h x := h.complete_append rfl x

section Rejected

variable {q q' x : List Byte} {d : Reader}

theorem Malformed.append (h : Malformed q) (x : List Byte) : Malformed (q ++ x) := by
  obtain ⟨line, rest, f, hq, hp⟩ := h
  exact ⟨line, rest ++ x, f, cutPair_append hq x, hp⟩

theorem Malformed.reads (h : Malformed q) : ∃ f, Reads .new q false ⟨.kexpectRequestLine, f⟩ q := by
  obtain ⟨line, rest, f, hq, hp⟩ := h
  exact ⟨f, .rejected hq hp⟩

theorem Malformed.no_request (h : Malformed q) (f : RequestFields) (rest : List Byte) :
    ¬ requestFraming.Takes q f rest := by
  intro htakes
  obtain ⟨g, hg⟩ := h.reads
  obtain ⟨hfalse, -⟩ := hg.deterministic htakes
  cases hfalse

/-- How a new reader rejects: the bytes stay, and it stays new unless a method has been set. -/
theorem Reads.rejects (h : Reads .new q false d q') : q' = q ∧ d.state = .kexpectRequestLine ∧
    Malformed q ∧ (d = .new ∨ d.fields.method ≠ .kinvalid ∧
      ∃ line rest, cutPair cr lf q = some (line, rest) ∧ space ∈ line) := by
  obtain ⟨hok, -⟩ | ⟨-, -, hstate, rfl, line, rest, hq, hp⟩ := h.outcome HttpConnection.clean_new
  · cases hok
  · refine ⟨rfl, hstate, ⟨line, rest, d.fields, hq, hp⟩, ?_⟩
    rcases RequestFields.processRequestLine_rejected rfl hp with ⟨-, hmethod, hspace⟩ | ⟨-, hf⟩
    · exact .inr ⟨hmethod, line, rest, hq, hspace⟩
    · exact .inl (Reader.ext hstate hf)

end Rejected

namespace HttpServer

def rejection : List Reply := [.sendPiece (.ofString badRequest), .shutdown]

/-- A malformed line is at the front of the buffer, whether the next call finds it again or
fails. -/
structure Refusing (context : HttpContext) (b : Buffer) : Prop where
  input : b.Inv
  state_eq : context.state = .kexpectRequestLine
  malformed : Malformed b.content
  reader : context.reader = .new ∨ context.request.method ≠ .kinvalid ∧
    ∃ line rest, cutPair cr lf b.content = some (line, rest) ∧ space ∈ line

/-- How far the server has come in arbitrary bytes: the `requests` have been answered, `bad` calls
found a malformed line, and the bytes `u` are still to be read. -/
structure Facing (httpCallback : HttpCallback) (context : HttpContext)
    (chunks : List (List Byte × Timestamp)) (b : Buffer) (out : List Reply)
    (requests : List HttpRequest) (bad : ℕ) (u : List Byte) : Prop where
  splits : requestFraming.Splits (chunks.flatMap Prod.fst)
    (requests.map HttpRequest.toRequestFields) u
  sent : out = (requests.map (response httpCallback)).flatMap repliesOf ++
    (List.replicate bad rejection).flatten
  mode : bad = 0 ∧ context.reader.Clean ∧ (HttpConnection.mk context b []).CarriesOn u ∨
    0 < bad ∧ b.content = u ∧ Refusing context b

def Facing.Kept (httpCallback : HttpCallback) (context : HttpContext)
    (chunks : List (List Byte × Timestamp)) (b : Buffer) (out : List Reply) : Prop :=
  ∃ requests bad u, Facing httpCallback context chunks b out requests bad u

variable {httpCallback : HttpCallback} {context context' : HttpContext} {b b' : Buffer}
  {chunks : List (List Byte × Timestamp)} {out : List Reply} {requests : List HttpRequest}
  {bad : ℕ} {u q data : List Byte} {t : Timestamp}

theorem onMessage_of_rejected (h : context.parseRequest b t = .ok (false, context', b'))
    (hg : context'.state ≠ .kGotAll) :
    onMessage httpCallback context b t = .ok (context', b', rejection) := by
  have hmsg : HttpConnection.onMessage ⟨context, b, []⟩ t = .ok ⟨context', b', [.badRequest]⟩ := by
    simp only [HttpConnection.onMessage, h, ok_bind, HttpContext.gotAll, hg]
    rfl
  rw [onMessage, hmsg, ok_bind]
  rfl

theorem onMessage_of_waiting (h : context.parseRequest b t = .ok (true, context', b'))
    (hg : context'.state ≠ .kGotAll) :
    onMessage httpCallback context b t = .ok (context', b', []) := by
  have hmsg : HttpConnection.onMessage ⟨context, b, []⟩ t = .ok ⟨context', b', []⟩ := by
    simp only [HttpConnection.onMessage, h, ok_bind, HttpContext.gotAll, hg]
    rfl
  rw [onMessage, hmsg, ok_bind]
  rfl

theorem onMessage_of_gotAll
    (hp : ∀ r, (response httpCallback r).Plain ∧ (response httpCallback r).KeepsSizes)
    (h : context.parseRequest b t = .ok (true, context', b')) (hg : context'.state = .kGotAll) :
    onMessage httpCallback context b t =
      .ok (.new, b', repliesOf (response httpCallback context'.request)) := by
  have hmsg : HttpConnection.onMessage ⟨context, b, []⟩ t = .ok ⟨.new, b',
      [.httpCallback context'.request (HttpConnection.closeAfter context'.request)]⟩ := by
    simp only [HttpConnection.onMessage, h, ok_bind, HttpContext.gotAll, hg]
    rfl
  have hanswer := @mapM_answer httpCallback [context'.request] fun r _ => hp r
  rw [List.map_singleton, List.map_singleton] at hanswer
  rw [onMessage, hmsg, ok_bind]
  dsimp only
  rw [hanswer, ok_bind, List.flatten_singleton]
  rfl

section Facing

variable (h : Facing httpCallback context chunks b out requests bad u)
include h

theorem Facing.splits_append (data : List Byte) (t : Timestamp) :
    requestFraming.Splits ((chunks ++ [(data, t)]).flatMap Prod.fst)
      (requests.map HttpRequest.toRequestFields) (u ++ data) := by
  have happ := h.splits.append data
  simpa using happ

theorem Facing.refuse (hreads : Reads .new (u ++ data) false context'.reader q)
    (hb : b'.Represents q) :
    Facing httpCallback context' (chunks ++ [(data, t)]) b' (out ++ rejection) requests (bad + 1)
      (u ++ data) := by
  obtain ⟨rfl, hstate, hmalformed, hreader⟩ := hreads.rejects
  refine ⟨h.splits_append data t, ?_, .inr ⟨bad.succ_pos, hb.2, hb.1, hstate, ?_, ?_⟩⟩
  · rw [h.sent, List.replicate_succ', List.flatten_concat, List.append_assoc]
  · rw [hb.2]
    exact hmalformed
  · rw [hb.2]
    exact hreader

theorem Facing.fail (hbad : 0 < bad) (hb : b'.content = u ++ data)
    (hrefusing : Refusing context b') :
    Facing httpCallback context (chunks ++ [(data, t)]) b' out requests bad (u ++ data) :=
  ⟨h.splits_append data t, h.sent, .inr ⟨hbad, hb, hrefusing⟩⟩

theorem Facing.wait (hbad : bad = 0) (hclean : context'.reader.Clean)
    (hcarries : (HttpConnection.mk context' b' []).CarriesOn (u ++ data)) :
    Facing httpCallback context' (chunks ++ [(data, t)]) b' out requests bad (u ++ data) :=
  ⟨h.splits_append data t, h.sent, .inl ⟨hbad, hclean, hcarries⟩⟩

theorem Facing.deliver (hbad : bad = 0) (hreads : Reads .new (u ++ data) true context'.reader q)
    (hg : context'.state = .kGotAll) (hb : b'.Represents q) :
    Facing httpCallback .new (chunks ++ [(data, t)]) b'
      (out ++ repliesOf (response httpCallback context'.request)) (requests ++ [context'.request])
      bad q := by
  subst hbad
  have hreader : context'.reader = ⟨.kGotAll, context'.request.toRequestFields⟩ :=
    Reader.ext hg rfl
  rw [hreader] at hreads
  refine ⟨?_, ?_, .inl ⟨rfl, HttpConnection.clean_new, HttpConnection.carriesOn_of_new rfl hb.2⟩⟩
  · rw [List.map_append, List.map_singleton]
    exact (h.splits_append data t).concat hreads
  · simp [h.sent]

end Facing

theorem readable_rejection : ∀ r ∈ rejection, r.Readable := by decide

theorem readable_repliesOf {r : HttpResponse} {reply : Reply} (h : reply ∈ repliesOf r) :
    reply.Readable := by
  unfold repliesOf at h
  rcases List.mem_cons.mp h with rfl | h
  · trivial
  · split at h
    · rw [List.mem_singleton.mp h]
      trivial
    · cases h

theorem Refusing.append (h : Refusing context b) (hb : b'.Represents (b.content ++ data)) :
    Refusing context b' := by
  refine ⟨hb.1, h.state_eq, ?_, h.reader.imp id ?_⟩
  · rw [hb.2]
    exact h.malformed.append data
  · rintro ⟨hmethod, line, rest, hq, hspace⟩
    rw [hb.2]
    exact ⟨hmethod, line, rest ++ data, cutPair_append hq data, hspace⟩

/-- With a method left behind, the assertion of `SetMethod` fails. -/
theorem onMessage_of_stuck (h : (HttpConnection.mk context b []).Stuck) :
    onMessage httpCallback context b t = .error (.assertion .http_request_h 51) := by
  have hfails := HttpConnection.receive_stuck h ([], t)
  rw [HttpConnection.receive, append_nil, ok_bind] at hfails
  rw [onMessage, hfails]
  rfl

/-- What a call of `OnMessage` with new bytes in the buffer keeps. -/
def Faces (httpCallback : HttpCallback) (chunks : List (List Byte × Timestamp)) (out : List Reply)
    (r : HttpContext × Buffer × List Reply) : Prop :=
  Facing.Kept httpCallback r.1 chunks r.2.1 (out ++ r.2.2) ∧ r.2.1.Inv ∧
    ∀ reply ∈ r.2.2, reply.Readable

/-- A call of `OnMessage` that returns keeps the account, and so does one that fails. -/
theorem onMessage_faces
    (hp : ∀ r, (response httpCallback r).Plain ∧ (response httpCallback r).KeepsSizes) :
    MessageService.Keeps (MessageService.rescued (onMessage httpCallback))
      (Facing.Kept httpCallback) fun _ _ => True := by
  rintro context chunks b b₁ out ⟨data, t⟩ ⟨requests, bad, u, h⟩ hb - - - hread
  dsimp only at hread ⊢
  have hrep := ((readFd_represents hb.represents data).of_eq hread).1
  have hrejects : ∀ {context' b' q}, context.parseRequest b₁ t = .ok (false, context', b') →
      Reads .new (u ++ data) false context'.reader q → b'.Represents q →
      Yields (MessageService.rescued (onMessage httpCallback) context b₁ t)
        (Faces httpCallback (chunks ++ [(data, t)]) out) := by
    intro context' b' q hparse hreads hb'
    have hg : context'.state ≠ .kGotAll := by
      intro hg
      cases hg.symm.trans hreads.rejects.2.1
    rw [MessageService.rescued_of_ok (onMessage_of_rejected hparse hg), yields_ok]
    exact ⟨⟨_, _, _, h.refuse hreads hb'⟩, hb'.1, readable_rejection⟩
  rcases h.mode with ⟨hbad, hclean, hcarries⟩ | ⟨hbad, hu, hrefusing⟩
  · obtain ⟨⟨ok, context', b'⟩, hparse, q, hb', hreads⟩ :=
      HttpContext.parseRequest_reads t hrep hclean
    have hnew : Reads .new (u ++ data) ok context'.reader q := hcarries data ok _ q hreads
    cases ok with
    | false => exact hrejects hparse hnew hb'
    | true =>
      by_cases hg : context'.state = .kGotAll
      · rw [MessageService.rescued_of_ok (onMessage_of_gotAll hp hparse hg), yields_ok]
        exact ⟨⟨_, _, _, h.deliver hbad hnew hg hb'⟩, hb'.1, fun _ => readable_repliesOf⟩
      · rw [MessageService.rescued_of_ok (onMessage_of_waiting hparse hg), yields_ok]
        refine ⟨⟨requests, bad, u ++ data, ?_⟩, hb'.1, by simp⟩
        rw [List.append_nil]
        refine h.wait hbad (hreads.clean hclean rfl hg) fun z ok d q' hz => ?_
        rw [List.append_assoc]
        refine hcarries (data ++ z) ok d q' ?_
        rw [← List.append_assoc]
        rw [show (HttpConnection.mk context' b' []).inputBuffer.content = q from hb'.2] at hz
        exact hreads.resume hg hz
  · have hrefusing' := hrefusing.append hrep
    rcases hrefusing'.reader with hreader | ⟨hmethod, hline⟩
    · obtain ⟨⟨ok, context', b'⟩, hparse, q, hb', hreads⟩ :=
        HttpContext.parseRequest_reads t hrep (hreader ▸ HttpConnection.clean_new)
      obtain ⟨f, hmalformed⟩ := hrefusing'.malformed.reads
      rw [hreader, hu] at hreads
      rw [hrep.2, hu] at hmalformed
      obtain ⟨rfl, -, -⟩ := hreads.deterministic hmalformed
      exact hrejects hparse hreads hb'
    · have hstuck : (HttpConnection.mk context b₁ []).Stuck :=
        ⟨hrep.1, hrefusing.state_eq, hmethod, hline⟩
      rw [MessageService.rescued_of_error (onMessage_of_stuck hstuck), yields_ok]
      refine ⟨⟨requests, bad, u ++ data, ?_⟩, hrep.1, by simp⟩
      rw [List.append_nil]
      exact h.fail hbad (hu ▸ hrep.2) hrefusing'

/-- What a client can get: the responses up to the first that closes the connection and, if none of
them does, the answer to a malformed request. -/
def wire (responses : List HttpResponse) (bad : Bool) : List Byte :=
  (throughClose responses).flatMap HttpResponse.emitted ++
    if bad ∧ ∀ r ∈ responses, r.closeConnection = false then badRequest else []

/-- What has become of the bytes of a client. The `requests` have been answered, and with `bad` a
malformed request as well. -/
structure Contained (httpCallback : HttpCallback) (s : MessageService HttpContext)
    (requests : List HttpRequest) (bad : Bool) : Prop where
  /-- The requests are the first ones of the stream, and no more are read behind a malformed one. -/
  read : ∃ rest, requestFraming.Splits (s.chunks.flatMap Prod.fst)
    (requests.map HttpRequest.toRequestFields) rest ∧ (bad = true → Malformed rest)
  taken : s.accepted <+: wire (requests.map (response httpCallback)) bad
  complete : s.replies = [] → s.conn.outputBuffer.content = [] →
    s.accepted = wire (requests.map (response httpCallback)) bad
  closed : s.replies = [] → s.conn.outputBuffer.content = [] →
    (s.shutdownWrites = 1 ↔
      bad = true ∨ ∃ r ∈ requests, (response httpCallback r).closeConnection = true)

/-- In which chunks the bytes arrive decides how much has been answered, not what is answered. -/
theorem Contained.agree {s s' : MessageService HttpContext} {requests' : List HttpRequest}
    {bad bad' : Bool} (h : Contained httpCallback s requests bad)
    (h' : Contained httpCallback s' requests' bad')
    (hbytes : s.chunks.flatMap Prod.fst = s'.chunks.flatMap Prod.fst)
    (hle : bad' = true ∨ requests.length ≤ requests'.length) :
    requests.map HttpRequest.toRequestFields <+: requests'.map HttpRequest.toRequestFields := by
  obtain ⟨rest, hsplits, -⟩ := h.read
  obtain ⟨rest', hsplits', hmalformed⟩ := h'.read
  rw [← hbytes] at hsplits'
  refine hsplits.isPrefix hsplits' ?_
  rcases hle with hbad | hle
  · exact hsplits'.length_le (hmalformed hbad).no_request hsplits
  · simpa using hle

theorem shutdown_mem_repliesOf {r : HttpResponse} :
    .shutdown ∈ repliesOf r ↔ r.closeConnection = true := by
  cases h : r.closeConnection <;> simp [repliesOf, h]

theorem shutdown_mem_rejections : .shutdown ∈ (List.replicate bad rejection).flatten ↔ 0 < bad := by
  cases bad <;> simp [rejection, List.replicate_succ]

theorem sentBy_rejections :
    Reply.sentBy (List.replicate bad rejection).flatten = if 0 < bad then badRequest else [] := by
  cases bad with
  | zero => rfl
  | succ n => simp [rejection, List.replicate_succ, Reply.sentBy]; decide

theorem Facing.shutdown_mem (h : Facing httpCallback context chunks b out requests bad u) :
    .shutdown ∈ out ↔
      0 < bad ∨ ∃ r ∈ requests, (response httpCallback r).closeConnection = true := by
  rw [h.sent, List.mem_append, shutdown_mem_rejections, or_comm]
  simp [List.mem_flatMap, shutdown_mem_repliesOf]

theorem Facing.sentBy_out (h : Facing httpCallback context chunks b out requests bad u) :
    Reply.sentBy out = wire (requests.map (response httpCallback)) (decide (0 < bad)) := by
  rw [h.sent, Reply.sentBy_append, sentBy_repliesOf, sentBy_rejections, wire]
  have hclose : .shutdown ∈ (requests.map (response httpCallback)).flatMap repliesOf ↔
      ¬ ∀ r ∈ requests.map (response httpCallback), r.closeConnection = false := by
    simp [List.mem_flatMap, shutdown_mem_repliesOf]
  by_cases hopen : ∀ r ∈ requests.map (response httpCallback), r.closeConnection = false
  · rw [if_neg (fun hmem => hclose.mp hmem hopen)]
    simp only [decide_eq_true_iff, and_iff_left hopen]
  · rw [if_pos (hclose.mpr hopen), if_neg (fun hall => hopen hall.2), List.append_nil]

theorem faces_new (hb : b.Represents []) : Facing.Kept httpCallback .new [] b [] :=
  ⟨[], 0, [], .nil _, rfl, .inl
    ⟨rfl, HttpConnection.clean_new, HttpConnection.carriesOn_of_new rfl hb.2⟩⟩

/--
Whatever bytes arrive in whatever chunks, and however the kernel takes the answers: as long as no
assertion fails, the client gets the responses to the first requests of its stream in order, up to
the first that closes the connection, then at most one answer to a malformed request, and then the
end of the stream.
-/
theorem any_input_contained (httpCallback : HttpCallback)
    (hp : ∀ r, (response httpCallback r).Plain ∧ (response httpCallback r).KeepsSizes)
    (c : TcpConnection) (hc : MessageService.Fresh c) (labels : List ServiceLabel)
    (h : Along (MessageService.step (onMessage httpCallback)) MessageService.Allowed (.new c .new)
      labels) (s : MessageService HttpContext)
    (hs : run (MessageService.step (onMessage httpCallback)) (.new c .new) labels = .ok s) :
    ∃ requests bad, Contained httpCallback s requests bad := by
  have hinv := MessageService.reached_inv (onMessage_faces hp) hc (faces_new hc.input) h hs
  obtain ⟨requests, bad, u, hfacing⟩ := hinv.app
  have hfaithful := hinv.faithful
  have hsent := hfacing.sentBy_out
  refine ⟨requests, decide (0 < bad), ⟨u, hfacing.splits, fun hbad => ?_⟩, ?_, ?_, ?_⟩
  · rcases hfacing.mode with ⟨rfl, -⟩ | ⟨-, rfl, hrefusing⟩
    · cases hbad
    · exact hrefusing.malformed
  · rw [← hsent]
    refine List.IsPrefix.trans ?_ sentBy_prefix
    rw [← hfaithful.stream]
    exact List.prefix_append _ _
  · intro hreplies hempty
    have hstream := hfaithful.stream
    rw [hreplies, List.append_nil] at hsent
    rwa [hempty, List.append_nil, hsent] at hstream
  · intro hreplies hempty
    have hshutdown := hfacing.shutdown_mem
    rw [hreplies, List.append_nil] at hshutdown
    rw [hfaithful.complete, hshutdown, decide_eq_true_iff]
    exact and_iff_left hempty

/-- A line that is not a request line, and a byte behind it: the second answer is not sent. -/
theorem any_input_contained_no_request :
    ∃ s, run (MessageService.step (onMessage defaultHttpCallback)) (.new idleConnection .new)
        [.readable (.bytes [120, cr, lf]) .invalid, .reply (.wrote 0), .reply (.wrote 0),
          .readable (.bytes [121]) .invalid, .reply (.wrote 0), .reply (.wrote 0)] = .ok s ∧
      s.conn.outputBuffer.content = badRequest ∧ s.replied.length = 4 ∧
      ∃ requests bad, Contained defaultHttpCallback s requests bad := by
  have hb : idleConnection.inputBuffer.Represents [] := ⟨⟨by decide, by decide, by decide⟩, rfl⟩
  have hsoft : ∀ n, WriteResult.Soft n (.wrote 0) := fun n => ⟨Nat.zero_le n, rfl⟩
  have hok : Yields (run (MessageService.step (onMessage defaultHttpCallback))
      (.new idleConnection .new) [.readable (.bytes [120, cr, lf]) .invalid, .reply (.wrote 0),
        .reply (.wrote 0), .readable (.bytes [121]) .invalid, .reply (.wrote 0), .reply (.wrote 0)])
      fun s => s.conn.outputBuffer.content = badRequest ∧ s.replied.length = 4 :=
    ⟨_, rfl, by decide +kernel, by decide +kernel⟩
  obtain ⟨s, hs, hcontent, hreplied⟩ := hok
  refine ⟨s, hs, hcontent, hreplied, ?_⟩
  refine any_input_contained _ defaultHttpCallback_plain idleConnection
    ⟨rfl, hb, hb, by decide⟩ _ ?_
    s hs
  refine ⟨show (3 : ℕ) ≤ 65536 by decide, fun s _ => ⟨fun _ _ => hsoft _, fun s _ =>
    ⟨fun _ _ => hsoft _, fun s _ => ⟨?_, fun s _ => ⟨fun _ _ => hsoft _, fun s _ =>
      ⟨fun _ _ => hsoft _, fun s _ => trivial⟩⟩⟩⟩⟩⟩
  show (1 : ℕ) ≤ s.conn.inputBuffer.readvRoom
  unfold readvRoom
  split
  · exact Nat.le_add_left_of_le (by decide)
  · next hlt => exact Nat.le_trans (by decide) (Nat.le_of_not_lt hlt)

end HttpServer

end Dwater
