import Dwater.Net.MessageService
import Dwater.Net.Http.ResponseDecoding
import Dwater.Net.Http.Segmentation

/-! # What an HTTP client gets back

`OnMessage` with the user's callback, on the connection that it answers: a response is put into a
buffer and sent, a malformed request gets a fixed answer. In whichever pieces the requests arrive
and the answers leave, the client reads the responses to the requests that were delivered, in
order and up to the first that closes the connection.
-/

set_option autoImplicit false
namespace Dwater

open Fallible Buffer WireRequest

abbrev HttpCallback := HttpRequest → HttpResponse → HttpResponse

namespace HttpServer

def notFound : List Byte := ascii ['N', 'O', 'T', ' ', 'F', 'O', 'U', 'N', 'D']

def defaultHttpCallback : HttpCallback := fun _ resp =>
  ((resp.setStatusCode .k404NotFound).setStatusMessage notFound).setCloseConnection true

def badRequest : List Byte :=
  ascii ['H', 'T', 'T', 'P', '/', '1', '.', '1', ' ', '4', '0', '0', ' ', 'B', 'a', 'd', ' ', 'R',
    'e', 'q', 'u', 'e', 's', 'e', 't'] ++ crlf ++ crlf

/-- The part of `OnRequest` that follows the computation of `close`. -/
def respond (httpCallback : HttpCallback) (request : HttpRequest) (close : Bool) :
    Except Fault (List Reply) := do
  let response := httpCallback request (.new close)
  let buf ← Buffer.new kinitialSize
  let buf ← response.appendToBuffer buf
  return .sendBuffer buf.content :: if response.closeConnection then [.shutdown] else []

def answer (httpCallback : HttpCallback) : HttpAction → Except Fault (List Reply)
  | .badRequest => return [.sendPiece (.ofString badRequest), .shutdown]
  | .httpCallback request close => respond httpCallback request close

/-- `OnMessage` on the context of the connection. -/
def onMessage (httpCallback : HttpCallback) : MessageCallback HttpContext :=
  fun context buf receiveTime => do
    let c ← HttpConnection.onMessage ⟨context, buf, []⟩ receiveTime
    let replies ← c.actions.mapM (answer httpCallback)
    return (c.context, c.inputBuffer, replies.flatten)

def response (httpCallback : HttpCallback) (request : HttpRequest) : HttpResponse :=
  httpCallback request (.new (HttpConnection.closeAfter request))

/-- The responses up to the first that closes the connection. -/
def throughClose : List HttpResponse → List HttpResponse
  | [] => []
  | r :: rs => if r.closeConnection then [r] else r :: throughClose rs

def repliesOf (r : HttpResponse) : List Reply :=
  .sendBuffer r.emitted :: if r.closeConnection then [.shutdown] else []

variable {httpCallback : HttpCallback} {responses : List HttpResponse}

theorem sentBy_repliesOf :
    Reply.sentBy (responses.flatMap repliesOf) =
      (throughClose responses).flatMap HttpResponse.emitted := by
  induction responses with
  | nil => rfl
  | cons r rs ih =>
    cases hclose : r.closeConnection with
    | true => simp [repliesOf, throughClose, hclose, Reply.sentBy, Reply.bytes]
    | false => simp [repliesOf, throughClose, hclose, Reply.sentBy, Reply.bytes, ih]

theorem throughClose_keptAlive : HttpResponse.KeptAlive (throughClose responses) := by
  induction responses with
  | nil => exact fun r hr => absurd hr List.not_mem_nil
  | cons r rs ih =>
    unfold throughClose
    split
    · exact fun r hr => absurd hr List.not_mem_nil
    · next hopen =>
      intro r' hr'
      cases hrest : throughClose rs with
      | nil =>
        rw [hrest] at hr'
        cases hr'
      | cons r₁ rest =>
        rw [hrest, List.dropLast_cons_cons] at hr'
        rcases List.mem_cons.mp hr' with rfl | hr'
        · simpa using hopen
        · exact ih r' (hrest ▸ hr')

theorem mem_of_mem_throughClose {r : HttpResponse} (h : r ∈ throughClose responses) :
    r ∈ responses := by
  induction responses with
  | nil => cases h
  | cons r' rs ih =>
    unfold throughClose at h
    split at h
    · exact List.mem_cons.mpr (.inl (List.mem_singleton.mp h))
    · exact (List.mem_cons.mp h).elim (fun hr => List.mem_cons.mpr (.inl hr))
        fun hr => List.mem_cons_of_mem r' (ih hr)

theorem closes_iff : (∃ r ∈ throughClose responses, r.closeConnection = true) ↔
    .shutdown ∈ responses.flatMap repliesOf := by
  induction responses with
  | nil => simp [throughClose]
  | cons r rs ih =>
    cases hclose : r.closeConnection with
    | true => simp [throughClose, repliesOf, hclose]
    | false => simpa [throughClose, repliesOf, hclose] using ih

theorem respond_eq {request : HttpRequest} {close : Bool}
    (hp : (httpCallback request (.new close)).Plain)
    (hk : (httpCallback request (.new close)).KeepsSizes) :
    respond httpCallback request close = .ok (repliesOf (httpCallback request (.new close))) := by
  obtain ⟨b, hb, hrep⟩ := new_represents kinitialSize
  have hfits : ∀ str ∈ (httpCallback request (.new close)).strings, Fits str :=
    fun str hstr => (hk str hstr).fits
  obtain ⟨b', hb', hrep'⟩ := ((HttpResponse.appends_appendToBuffer hp.body) b [] hrep).1 hfits
  unfold respond
  rw [hb, ok_bind, hb', ok_bind, hrep'.2, List.nil_append, repliesOf]
  rfl

theorem mapM_answer {requests : List HttpRequest}
    (hp : ∀ r ∈ requests, (response httpCallback r).Plain ∧ (response httpCallback r).KeepsSizes) :
    (requests.map fun r => .httpCallback r (HttpConnection.closeAfter r)).mapM
        (answer httpCallback) =
      .ok (requests.map fun r => repliesOf (response httpCallback r)) := by
  induction requests with
  | nil => rfl
  | cons r requests ih =>
    obtain ⟨⟨hplain, hkeeps⟩, hp⟩ := List.forall_mem_cons.mp hp
    rw [List.map_cons, List.mapM_cons, ih hp, answer, respond_eq hplain hkeeps]
    rfl

theorem actions_of_ok {c c' : HttpConnection} {t : Timestamp} {context : HttpContext} {b : Buffer}
    (hnil : c.actions = [])
    (hparse : c.context.parseRequest c.inputBuffer t = .ok (true, context, b))
    (hc' : c.onMessage t = .ok c') :
    c'.actions = c'.requests.map fun r => .httpCallback r (HttpConnection.closeAfter r) := by
  unfold HttpConnection.onMessage at hc'
  rw [hparse, ok_bind] at hc'
  simp only [hnil, if_true] at hc'
  split at hc'
  · cases hc'
    simp [HttpConnection.onRequest, HttpConnection.requests]
  · cases hc'
    rfl

theorem append_nil (b : Buffer) : b.append [] = .ok b := by
  simp only [append, ensureWritableBytes, List.length_nil, Nat.not_lt_zero, if_false, pure_bind,
    Nat.zero_le, check_bind_of_true, store_nil, ok_bind, hasWritten, Nat.add_zero]
  rfl

def Within (stream : List Byte) (chunks : List (List Byte × Timestamp))
    (x : List Byte × Timestamp) : Prop :=
  (chunks ++ [x]).flatMap Prod.fst <+: stream

/-- How far the server has come in a stream of requests: it has answered the `requests`, and goes on
with the bytes `u` of the rest of them. -/
structure Progress (httpCallback : HttpCallback) (rs : List WireRequest) (context : HttpContext)
    (chunks : List (List Byte × Timestamp)) (b : Buffer) (out : List Reply)
    (requests : List HttpRequest) (u : List Byte) : Prop where
  clean : context.reader.Clean
  carriesOn : (HttpConnection.mk context b []).CarriesOn u
  bytes : chunks.flatMap Prod.fst = encodeAll (rs.take requests.length) ++ u
  read : requests.map HttpRequest.toRequestFields = (rs.take requests.length).map fields
  count : ∀ ks, deliveries rs 0 ((chunks.map fun x => x.1.length) ++ ks) =
    requests.length + deliveries (rs.drop requests.length) u.length ks
  sent : out = (requests.map (response httpCallback)).flatMap repliesOf

def Serving (httpCallback : HttpCallback) (rs : List WireRequest) (context : HttpContext)
    (chunks : List (List Byte × Timestamp)) (b : Buffer) (out : List Reply) : Prop :=
  ∃ requests u, Progress httpCallback rs context chunks b out requests u

section Progress

variable {rs rest : List WireRequest} {context context' : HttpContext} {b b' : Buffer}
  {chunks : List (List Byte × Timestamp)} {out : List Reply} {requests : List HttpRequest}
  {u data y : List Byte} {t : Timestamp} {r : WireRequest} {request : HttpRequest}

/-- What is read now belongs to the requests that are not answered yet. -/
theorem Progress.rest_bytes (h : Progress httpCallback rs context chunks b out requests u)
    (hy : (chunks ++ [(data, t)]).flatMap Prod.fst ++ y = encodeAll rs) :
    u ++ data ++ y = encodeAll (rs.drop requests.length) := by
  have hsplit : encodeAll rs =
      encodeAll (rs.take requests.length) ++ encodeAll (rs.drop requests.length) := by
    rw [encodeAll, encodeAll, encodeAll, ← List.flatMap_append, List.take_append_drop]
  rw [List.flatMap_append, h.bytes, hsplit] at hy
  simp only [List.flatMap_cons, List.flatMap_nil, List.append_nil, List.append_assoc] at hy
  rw [List.append_assoc]
  exact List.append_cancel_left hy

theorem Progress.wait (h : Progress httpCallback rs context chunks b out requests u)
    (hrest : rs.drop requests.length = r :: rest)
    (hmore : ¬ (r.method ≠ .khead ∧ r.encode.length ≤ (u ++ data).length))
    (hclean : context'.reader.Clean)
    (hcarry : (HttpConnection.mk context' b' []).CarriesOn (u ++ data)) :
    Progress httpCallback rs context' (chunks ++ [(data, t)]) b' out requests (u ++ data) := by
  refine ⟨hclean, hcarry, ?_, h.read, fun ks => ?_, h.sent⟩
  · simp [h.bytes]
  · have hcount := h.count (data.length :: ks)
    rw [hrest, deliveries, if_neg (by simpa using hmore)] at hcount
    rw [List.map_append, List.append_assoc, hrest, List.length_append]
    exact hcount

theorem Progress.deliver (h : Progress httpCallback rs context chunks b out requests u)
    (hrest : rs.drop requests.length = r :: rest)
    (hdone : r.method ≠ .khead ∧ r.encode.length ≤ (u ++ data).length)
    (hcat : u ++ data ++ y = encodeAll (rs.drop requests.length))
    (hclean : context'.reader.Clean)
    (hcarry : (HttpConnection.mk context' b' []).CarriesOn ((u ++ data).drop r.encode.length))
    (hrequest : request.toRequestFields = r.fields) :
    Progress httpCallback rs context' (chunks ++ [(data, t)]) b'
      (out ++ repliesOf (response httpCallback request)) (requests ++ [request])
      ((u ++ data).drop r.encode.length) := by
  have htake : rs.take (requests.length + 1) = rs.take requests.length ++ [r] := by
    have hget : rs[requests.length]? = some r := by
      rw [← List.head?_drop, hrest, List.head?_cons]
    rw [List.take_add_one, hget, Option.toList_some]
  have hdrop : rs.drop (requests.length + 1) = rest := by
    rw [← List.drop_drop, hrest, List.drop_one, List.tail_cons]
  have hbytes : u ++ data = r.encode ++ (u ++ data).drop r.encode.length := by
    have hall : u ++ data ++ y = r.encode ++ encodeAll rest := by
      rw [hcat, hrest, encodeAll, List.flatMap_cons, encodeAll]
    have hfirst := congrArg (List.take r.encode.length) hall
    rw [List.take_append_of_le_length hdone.2, List.take_left] at hfirst
    calc u ++ data = (u ++ data).take r.encode.length ++ (u ++ data).drop r.encode.length :=
          (List.take_append_drop _ _).symm
      _ = r.encode ++ (u ++ data).drop r.encode.length := by rw [hfirst]
  refine ⟨hclean, hcarry, ?_, ?_, fun ks => ?_, ?_⟩
  · rw [List.length_append, List.length_singleton, htake, encodeAll, List.flatMap_append,
      List.flatMap_append, h.bytes, ← encodeAll]
    simp only [List.flatMap_cons, List.flatMap_nil, List.append_nil, List.append_assoc]
    rw [← hbytes]
  · rw [List.map_append, h.read, List.length_append, List.length_singleton, htake, List.map_append,
      List.map_singleton, hrequest, List.map_singleton]
  · have hcount := h.count (data.length :: ks)
    rw [hrest, deliveries, if_pos (by simpa using hdone)] at hcount
    rw [List.map_append, List.append_assoc, List.length_append, List.length_singleton, hdrop,
      List.length_drop, List.length_append, Nat.add_assoc]
    exact hcount
  · rw [h.sent, List.map_append, List.flatMap_append, List.map_singleton, List.flatMap_singleton]

end Progress

theorem onMessage_keeps {rs : List WireRequest} (hhead : ∀ r ∈ rs, r.method ≠ .khead)
    (hp : ∀ r, (response httpCallback r).Plain ∧ (response httpCallback r).KeepsSizes) :
    MessageService.Keeps (onMessage httpCallback) (Serving httpCallback rs)
      (Within (encodeAll rs)) := by
  rintro context chunks b b' out ⟨data, t⟩ ⟨requests, u, h⟩ hb ⟨y, hy⟩ hne - hread
  dsimp only at hne hread ⊢
  have hrep := ((readFd_represents hb.represents data).of_eq hread).1
  have hcat := h.rest_bytes hy
  cases hrest : rs.drop requests.length with
  | nil =>
    rw [hrest] at hcat
    exact absurd (List.append_eq_nil_iff.mp (List.append_eq_nil_iff.mp hcat).1).2 hne
  | cons r rest =>
    have hr : r.method ≠ .khead := hhead r (List.mem_of_mem_drop (hrest ▸ List.mem_cons_self))
    have hall : u ++ data ++ y = r.encode ++ encodeAll rest := by
      rw [hcat, hrest, encodeAll, List.flatMap_cons, encodeAll]
    let c : HttpConnection := ⟨context, b', []⟩
    have hcarries : c.CarriesOn (u ++ data) := by
      intro z ok d q hz
      rw [List.append_assoc]
      refine h.carriesOn (data ++ z) ok d q ?_
      rw [← List.append_assoc]
      rwa [← hrep.2]
    obtain ⟨⟨ok, context', b''⟩, hparse, q, -, hreads⟩ :=
      HttpContext.parseRequest_reads t hrep h.clean
    -- a request of the stream is never rejected
    have hok : ok = true := by
      by_contra hok
      rw [Bool.not_eq_true] at hok
      subst hok
      have hnew := hcarries [] false context'.reader q (by rwa [List.append_nil, hrep.2])
      rw [List.append_nil] at hnew
      have hrejected := hnew.rejected_append y
      rw [hall] at hrejected
      obtain ⟨hfalse, -⟩ := hrejected.deterministic (reads_encode hr (encodeAll rest))
      cases hfalse
    subst hok
    have hready : c.Ready := ⟨hrep.1, h.clean⟩
    obtain ⟨c', hreceive, hready', hcases⟩ := HttpConnection.receive_delivers (x := ([], t)) hready
      hcarries ((congrArg (· ++ y) (List.append_nil (u ++ data))).trans hall)
    have hmessage : c.onMessage t = .ok c' := by
      rw [← hreceive, HttpConnection.receive, append_nil, ok_bind]
    have hstep : onMessage httpCallback context b' t = .ok (c'.context, c'.inputBuffer,
        (c'.requests.map (response httpCallback)).flatMap repliesOf) := by
      unfold onMessage
      rw [hmessage, ok_bind, actions_of_ok rfl hparse hmessage, mapM_answer fun r _ => hp r,
        ok_bind,
        List.flatMap_map, List.flatMap_def]
      rfl
    rw [hstep, yields_ok]
    refine ⟨?_, hready'.input, fun reply hreply => ?_⟩
    · rw [List.append_nil] at hcases
      split at hcases
      · next hdone =>
        obtain ⟨hcarry, hread'⟩ := hcases
        obtain ⟨request, hrequest, hfields⟩ := List.map_eq_singleton_iff.mp hread'
        rw [hrequest, List.map_singleton, List.flatMap_singleton]
        exact ⟨_, _, h.deliver hrest hdone hcat hready'.clean hcarry hfields⟩
      · next hmore =>
        obtain ⟨hcarry, hread'⟩ := hcases
        rw [List.map_eq_nil_iff.mp hread', List.map_nil, List.flatMap_nil, List.append_nil]
        exact ⟨_, _, h.wait hrest hmore hready'.clean hcarry⟩
    · obtain ⟨resp, -, hmem⟩ := List.mem_flatMap.mp hreply
      unfold repliesOf at hmem
      rcases List.mem_cons.mp hmem with rfl | hmem
      · trivial
      · split at hmem
        · rw [List.mem_singleton.mp hmem]
          trivial
        · cases hmem

theorem serving_new {rs : List WireRequest} {b : Buffer} (hb : b.Represents []) :
    Serving httpCallback rs .new [] b [] := by
  refine ⟨[], [], HttpConnection.clean_new, HttpConnection.carriesOn_of_new rfl hb.2, rfl, rfl, ?_,
    rfl⟩
  intro ks
  simp

/-- What the client of a stream of requests sees: `responses` are the answers to the requests that
the chunks read so far deliver, up to the first that closes the connection. -/
structure Served (httpCallback : HttpCallback) (rs : List WireRequest)
    (s : MessageService HttpContext) (requests : List HttpRequest) : Prop where
  read : requests.map HttpRequest.toRequestFields =
    (rs.take (deliveries rs 0 (s.chunks.map fun x => x.1.length))).map fields

  /-- no byte of another kind reaches the client, -/
  taken : s.accepted <+:
    (throughClose (requests.map (response httpCallback))).flatMap HttpResponse.emitted

  /-- once everything has left it reads the responses, -/
  answered : s.replies = [] → s.conn.outputBuffer.content = [] →
    ResponseReader.readAll s.accepted =
      some ((throughClose (requests.map (response httpCallback))).map HttpResponse.fields)

  /-- and then the write side is closed when the last of them says so. -/
  closed : s.replies = [] → s.conn.outputBuffer.content = [] →
    (s.shutdownWrites = 1 ↔
      ∃ r ∈ throughClose (requests.map (response httpCallback)), r.closeConnection = true)

theorem sentBy_prefix {done rest : List Reply} :
    Reply.sentBy done <+: Reply.sentBy (done ++ rest) := by
  induction done with
  | nil => exact List.nil_prefix
  | cons r done ih =>
    cases r with
    | shutdown => exact List.nil_prefix
    | sendPiece message => exact (List.prefix_append_right_inj _).mpr ih
    | sendBuffer content => exact (List.prefix_append_right_inj _).mpr ih

/--
The requests of a stream arrive in any chunks, the kernel takes the answers in any pieces: the
client reads the responses to the requests that were delivered, in order and up to the first that
closes the connection, and then the end of the stream.
-/
theorem client_reads_responses (httpCallback : HttpCallback)
    (hp : ∀ r, (response httpCallback r).Plain ∧ (response httpCallback r).KeepsSizes)
    (rs : List WireRequest) (hhead : ∀ r ∈ rs, r.method ≠ .khead) (c : TcpConnection)
    (hc : MessageService.Fresh c) (labels : List ServiceLabel)
    (h : Along (MessageService.step (onMessage httpCallback))
      (MessageService.Admitted (Within (encodeAll rs))) (.new c .new) labels) :
    Yields (run (MessageService.step (onMessage httpCallback)) (.new c .new) labels) fun s =>
      ∃ requests, Served httpCallback rs s requests := by
  refine (MessageService.run_inv (onMessage_keeps hhead hp) hc (serving_new hc.input) h).mono ?_
  intro s hs
  obtain ⟨requests, u, hprogress⟩ := hs.app
  have hfaithful := hs.faithful
  have hsent : Reply.sentBy ((requests.map (response httpCallback)).flatMap repliesOf) = _ :=
    sentBy_repliesOf
  rw [← hprogress.sent] at hsent
  refine ⟨requests, ?_, ?_, fun hreplies hempty => ?_, fun hreplies hempty => ?_⟩
  · have hcount := hprogress.count []
    have hzero : deliveries (rs.drop requests.length) u.length [] = 0 := by
      cases rs.drop requests.length <;> rfl
    rw [List.append_nil, hzero, Nat.add_zero] at hcount
    rw [hcount]
    exact hprogress.read
  · rw [← hsent]
    refine List.IsPrefix.trans ?_ sentBy_prefix
    rw [← hfaithful.stream]
    exact List.prefix_append _ _
  · have hstream := hfaithful.stream
    rw [hreplies, List.append_nil] at hsent
    rw [hempty, List.append_nil, hsent] at hstream
    rw [hstream, ResponseReader.readAll]
    have hall : ∀ r ∈ throughClose (requests.map (response httpCallback)),
      r.Plain ∧ r.KeepsSizes := by
      intro r hr
      obtain ⟨request, -, rfl⟩ := List.mem_map.mp (mem_of_mem_throughClose hr)
      exact hp request
    refine (HttpResponse.readResponses_emitted (fun r hr => (hall r hr).1) ?_ throughClose_keptAlive
      le_rfl).mpr fun r hr => (hall r hr).2
    exact fun r hr str hstr => ((hall r hr).2 str hstr).fits
  · rw [hfaithful.complete, closes_iff, ← hprogress.sent, hreplies, List.append_nil, hempty]
    simp

theorem defaultHttpCallback_plain (r : HttpRequest) :
    (response defaultHttpCallback r).Plain ∧ (response defaultHttpCallback r).KeepsSizes := by
  refine ⟨⟨⟨show cr ∉ notFound by decide, show lf ∉ notFound by decide⟩, ?_, ?_,
    show 0 < 2 ^ 31 by decide⟩, ?_⟩
  · exact fun h hh => absurd hh List.not_mem_nil
  · exact fun h hh => absurd hh List.not_mem_nil
  · intro str hstr
    have hshort : str.length < 2 ^ 31 := by
      rcases List.mem_cons.mp hstr with rfl | hstr
      · exact show notFound.length < 2 ^ 31 by decide
      · cases hstr
    exact keepsSize_iff.mpr hshort

/-- One request, whose answer the kernel does not take at first. -/
theorem client_reads_responses_not_found :
    Yields (run (MessageService.step (onMessage defaultHttpCallback)) (.new idleConnection .new)
      [.readable (.bytes HttpConnection.rootRequest.encode) .invalid,
      .reply (.error .ewouldblock .ewouldblock),
        .reply (.wrote 0), .writable (.wrote 0)]) fun s =>
      ∃ requests, Served defaultHttpCallback [HttpConnection.rootRequest] s requests := by
  have hb : idleConnection.inputBuffer.Represents [] := ⟨⟨by decide, by decide, by decide⟩, rfl⟩
  refine client_reads_responses _ defaultHttpCallback_plain _ (by decide) idleConnection
    ⟨rfl, hb, hb, by decide⟩ _ ?_
  have hsoft : ∀ n, WriteResult.Soft n (.wrote 0) := fun n => ⟨Nat.zero_le n, rfl⟩
  refine ⟨⟨show (18 : ℕ) ≤ 65536 by decide, fun x hx => ?_⟩, fun s _ => ?_⟩
  · cases hx
    exact List.prefix_rfl
  · refine ⟨⟨fun r _ => ⟨Nat.zero_le _, rfl⟩, fun x hx => nomatch hx⟩, fun s _ => ?_⟩
    refine ⟨⟨fun r _ => hsoft _, fun x hx => nomatch hx⟩, fun s _ => ?_⟩
    exact ⟨⟨Nat.zero_le _, fun x hx => nomatch hx⟩, fun _ _ => trivial⟩

end HttpServer

end Dwater
