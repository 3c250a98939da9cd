import Dwater.Net.Http.WireRequest

/-! # Requests and the chunks they arrive in

Each call of `OnMessage` hands at most one request to the user's callback. A stream of
requests is therefore delivered in full just when at no point more requests are
incomplete than there are chunks to come, and none of them is a `HEAD` request.
-/

set_option autoImplicit false
namespace Dwater

open Fallible Search

namespace WireRequest

def encodeAll (rs : List WireRequest) : List Byte := rs.flatMap encode

/-- How many requests of the stream are complete in its first `n` bytes. -/
def completeIn : List WireRequest → ℕ → ℕ
  | [], _ => 0
  | r :: rs, n => if r.encode.length ≤ n then 1 + completeIn rs (n - r.encode.length) else 0

/-- How many requests are delivered by calls that follow chunks of the given sizes, when `n` bytes
of the stream are there already. -/
def deliveries : List WireRequest → ℕ → List ℕ → ℕ
  | r :: rs, n, k :: ks =>
    if r.method ≠ .khead ∧ r.encode.length ≤ n + k then
      1 + deliveries rs (n + k - r.encode.length) ks
    else deliveries (r :: rs) (n + k) ks
  | _, _, _ => 0

variable {r : WireRequest} {rs : List WireRequest} {ks : List ℕ} {n k : ℕ}

theorem deliveries_le : deliveries rs n ks ≤ rs.length := by
  induction ks generalizing rs n with
  | nil => cases rs <;> simp [deliveries]
  | cons k ks ih =>
    cases rs with
    | nil => simp [deliveries]
    | cons r rs =>
      simp only [deliveries, List.length_cons]
      split
      · have := @ih rs (n + k - r.encode.length)
        omega
      · exact ih

theorem deliveries_head (h : r.method = .khead) : deliveries (r :: rs) n ks = 0 := by
  induction ks generalizing n with
  | nil => rfl
  | cons k ks ih =>
    simp only [deliveries, h, ne_eq, not_true_eq_false, false_and, if_false]
    exact ih

/-- From the first chunk on, the requests still incomplete are no more than the chunks to come. -/
def Scheduled (rs : List WireRequest) (n : ℕ) (ks : List ℕ) : Prop :=
  rs.length ≤ ks.length ∧ ∀ j, 1 ≤ j → j ≤ ks.length →
    rs.length - completeIn rs (n + (ks.take j).sum) ≤ ks.length - j

theorem scheduled_cons_complete (h : r.encode.length ≤ n + k) :
    Scheduled (r :: rs) n (k :: ks) ↔ Scheduled rs (n + k - r.encode.length) ks := by
  have hsum : ∀ j, n + ((k :: ks).take (j + 1)).sum = n + k + (ks.take j).sum := by
    intro j
    rw [List.take_succ_cons, List.sum_cons]
    omega
  have hcomplete : ∀ j, completeIn (r :: rs) (n + k + (ks.take j).sum) =
      1 + completeIn rs (n + k - r.encode.length + (ks.take j).sum) := by
    intro j
    rw [completeIn, if_pos (by omega)]
    congr 2
    omega
  constructor
  · rintro ⟨hlen, hj⟩
    refine ⟨by simpa using hlen, fun j h1 h2 => ?_⟩
    have := hj (j + 1) (by omega) (by simpa using h2)
    rw [hsum, hcomplete] at this
    simp only [List.length_cons] at this
    omega
  · rintro ⟨hlen, hj⟩
    refine ⟨by simpa using hlen, fun j h1 h2 => ?_⟩
    obtain ⟨j, rfl⟩ : ∃ i, j = i + 1 := ⟨j - 1, by omega⟩
    rw [hsum, hcomplete]
    simp only [List.length_cons] at h2 ⊢
    cases j with
    | zero => omega
    | succ j =>
      have := hj (j + 1) (by omega) (by omega)
      omega

theorem scheduled_cons_incomplete (h : ¬ r.encode.length ≤ n + k) :
    Scheduled (r :: rs) n (k :: ks) ↔ Scheduled (r :: rs) (n + k) ks := by
  have hsum : ∀ j, n + ((k :: ks).take (j + 1)).sum = n + k + (ks.take j).sum := by
    intro j
    rw [List.take_succ_cons, List.sum_cons]
    omega
  have hzero : completeIn (r :: rs) (n + k) = 0 := by rw [completeIn, if_neg h]
  constructor
  · rintro ⟨hlen, hj⟩
    constructor
    · have := hj 1 (by omega) (by simp)
      rw [hsum] at this
      simp only [List.take_zero, List.sum_nil, Nat.add_zero, hzero] at this
      simp only [List.length_cons] at this ⊢
      omega
    · intro j h1 h2
      have := hj (j + 1) (by omega) (by simpa using h2)
      rw [hsum] at this
      simp only [List.length_cons] at this ⊢
      omega
  · rintro ⟨hlen, hj⟩
    refine ⟨by simp only [List.length_cons] at hlen ⊢; omega, fun j h1 h2 => ?_⟩
    obtain ⟨j, rfl⟩ : ∃ i, j = i + 1 := ⟨j - 1, by omega⟩
    rw [hsum]
    simp only [List.length_cons] at h2 hlen hj ⊢
    cases j with
    | zero =>
      simp only [List.take_zero, List.sum_nil, Nat.add_zero, hzero]
      omega
    | succ j =>
      have := hj (j + 1) (by omega) (by omega)
      omega

theorem deliveries_eq_iff : deliveries rs n ks = rs.length ↔
    (∀ r ∈ rs, r.method ≠ .khead) ∧ Scheduled rs n ks := by
  induction ks generalizing rs n with
  | nil =>
    cases rs with
    | nil => simp [deliveries, Scheduled]
    | cons r rs => simp [deliveries, Scheduled]
  | cons k ks ih =>
    cases rs with
    | nil => simp [deliveries, Scheduled]
    | cons r rs =>
      by_cases hh : r.method = .khead
      · rw [deliveries_head hh]
        constructor
        · intro h
          cases h
        · rintro ⟨hno, -⟩
          exact absurd hh (hno r List.mem_cons_self)
      · by_cases hc : r.encode.length ≤ n + k
        · rw [deliveries, if_pos ⟨hh, hc⟩, scheduled_cons_complete hc, List.length_cons,
            Nat.add_comm 1, Nat.succ_inj, ih]
          simp [hh]
        · rw [deliveries, if_neg (fun h => hc h.2), scheduled_cons_incomplete hc, ih]

end WireRequest

namespace HttpConnection

open WireRequest

variable {c : HttpConnection} {u s y : List Byte} {r : WireRequest} {x : List Byte × Timestamp}

/-- The connection goes on as if it had just begun with the bytes `u`. -/
def CarriesOn (c : HttpConnection) (u : List Byte) : Prop :=
  ∀ z ok d q, Reads c.context.reader (c.inputBuffer.content ++ z) ok d q →
    Reads .new (u ++ z) ok d q

theorem carriesOn_of_new (hc : c.context.reader = .new) (hb : c.inputBuffer.content = u) :
    c.CarriesOn u := by
  intro z ok d q h
  rwa [hc, hb] at h

theorem not_gotAll {ok : Bool} {d : Reader} {p q : List Byte}
    (h : Reads .new p ok d q) (hcat : p ++ y = r.encode ++ s)
    (hr : ¬ (r.method ≠ .khead ∧ r.encode.length ≤ p.length)) : d.state ≠ .kGotAll := by
  intro hg
  have hall := h.complete_append hg y
  rw [hcat] at hall
  by_cases hh : r.method = .khead
  · obtain ⟨-, rfl, -⟩ := hall.deterministic (reads_head hh s)
    cases hg
  · obtain ⟨-, -, hq⟩ := hall.deterministic (reads_encode hh s)
    have hlen := congrArg List.length hcat
    rw [← hq] at hlen
    simp only [List.length_append] at hlen
    exact hr ⟨hh, by omega⟩

/-- A call after which the next request is complete delivers it; any other call delivers nothing. -/
theorem receive_delivers (h : c.Ready) (hu : c.CarriesOn u)
    (hcat : u ++ x.1 ++ y = r.encode ++ s) :
    ∃ c', c.receive x = .ok c' ∧ c'.Ready ∧
      if r.method ≠ .khead ∧ r.encode.length ≤ (u ++ x.1).length then
        c'.CarriesOn ((u ++ x.1).drop r.encode.length) ∧
          c'.readRequests = c.readRequests ++ [r.fields]
      else c'.CarriesOn (u ++ x.1) ∧ c'.readRequests = c.readRequests := by
  obtain ⟨ok, d, q, c', hstep, hreads, hq, hctx, hreq⟩ := receive_reads h x
  have hr : Reads .new (u ++ x.1) ok d q := hu x.1 ok d q hreads
  refine ⟨c', hstep, ?_⟩
  split
  · next hdone =>
    have hp : u ++ x.1 = r.encode ++ (u ++ x.1).drop r.encode.length := by
      have htake := congrArg (List.take r.encode.length) hcat
      rw [List.take_append_of_le_length hdone.2, List.take_left] at htake
      rw [← htake, List.length_take, Nat.min_eq_left hdone.2, List.take_append_drop]
    have hall := reads_encode hdone.1 ((u ++ x.1).drop r.encode.length)
    rw [← hp] at hall
    obtain ⟨-, rfl, rfl⟩ := hr.deterministic hall
    rw [if_pos rfl] at hctx hreq
    exact ⟨⟨hq.1, hctx ▸ clean_new⟩, carriesOn_of_new hctx hq.2, hreq⟩
  · next hdone =>
    have hg := not_gotAll hr hcat hdone
    rw [if_neg hg] at hctx hreq
    rw [List.append_nil] at hreq
    cases ok with
    | true =>
      have hclean : d.Clean := by
        rcases hr.outcome clean_new with ⟨-, hstate, -⟩ | ⟨hok, -⟩
        · exact hstate.resolve_left hg
        · cases hok
      refine ⟨⟨hq.1, hctx ▸ hclean⟩, ?_, hreq⟩
      intro z ok' d' q' hz
      rw [hctx, hq.2] at hz
      exact hr.resume hg hz
    | false =>
      have hrej := hr.rejected_append y
      rw [hcat] at hrej
      have hh : r.method = .khead := by
        by_contra hh
        obtain ⟨hok, -⟩ := hrej.deterministic (reads_encode hh s)
        cases hok
      obtain ⟨-, rfl, hqy⟩ := hrej.deterministic (reads_head hh s)
      rw [← hcat] at hqy
      have hqp : q = u ++ x.1 := List.append_cancel_right hqy
      exact ⟨⟨hq.1, hctx ▸ clean_new⟩, carriesOn_of_new hctx (hq.2.trans hqp), hreq⟩

/-- A whole run delivers the requests that the sizes of its chunks allow. -/
theorem run_delivers (chunks : List (List Byte × Timestamp)) (hne : ∀ x ∈ chunks, x.1 ≠ []) :
    ∀ (c : HttpConnection) (u : List Byte) (rs : List WireRequest), c.Ready → c.CarriesOn u →
      u ++ (chunks.map Prod.fst).flatten = encodeAll rs →
      Yields (run receive c chunks) fun c' => c'.readRequests = c.readRequests ++
        (rs.take (deliveries rs u.length (chunks.map fun x => x.1.length))).map fields := by
  induction chunks with
  | nil =>
    intro c u rs h _ _
    refine ⟨c, rfl, ?_⟩
    cases rs <;> simp [deliveries]
  | cons x chunks ih =>
    intro c u rs h hu hcat
    have hih := ih fun y hy => hne y (List.mem_cons_of_mem _ hy)
    rw [List.map_cons, List.flatten_cons, ← List.append_assoc] at hcat
    cases rs with
    | nil =>
      have hx : x.1 = [] := by
        have hnil := (List.append_eq_nil_iff.mp hcat).1
        exact (List.append_eq_nil_iff.mp hnil).2
      exact absurd hx (hne x List.mem_cons_self)
    | cons r rs =>
      obtain ⟨c', hstep, hready, hcases⟩ := receive_delivers h hu hcat
      rw [run_cons_of_ok hstep]
      rw [List.length_append] at hcases
      simp only [List.map_cons, deliveries]
      split at hcases
      · next hdone =>
        rw [if_pos hdone]
        obtain ⟨hcarry, hreq⟩ := hcases
        have hrest : (u ++ x.1).drop r.encode.length ++ (chunks.map Prod.fst).flatten =
            encodeAll rs := by
          have hdrop := congrArg (List.drop r.encode.length) hcat
          rw [List.drop_append_of_le_length (by simpa using hdone.2)] at hdrop
          rw [hdrop]
          exact List.drop_left
        refine (hih c' _ rs hready hcarry hrest).mono fun c'' hc'' => ?_
        rw [hc'', hreq, List.length_drop, List.length_append, Nat.add_comm 1]
        simp
      · next hdone =>
        rw [if_neg hdone]
        obtain ⟨hcarry, hreq⟩ := hcases
        refine (hih c' _ (r :: rs) hready hcarry hcat).mono fun c'' hc'' => ?_
        rw [hc'', hreq, List.length_append]

/--
A stream of requests, cut into chunks in any way, is delivered in full and in order if and only
if it holds no `HEAD` request and after any number of chunks the requests that are not complete
are no more than the chunks to come.
-/
theorem requests_delivered_iff (b : Buffer) (hb : b.Represents []) (rs : List WireRequest)
    (chunks : List (List Byte × Timestamp)) (hne : ∀ x ∈ chunks, x.1 ≠ [])
    (hcat : (chunks.map Prod.fst).flatten = encodeAll rs) :
    Yields (run receive (new b) chunks) (fun c => c.readRequests = rs.map fields) ↔
      (∀ r ∈ rs, r.method ≠ .khead) ∧ ∀ j ≤ chunks.length,
        rs.length - completeIn rs ((chunks.take j).map fun x => x.1.length).sum ≤
          chunks.length - j := by
  have hcarry : (new b).CarriesOn [] := carriesOn_of_new rfl hb.2
  obtain ⟨c, hrun, hreq⟩ := run_delivers chunks hne (new b) [] rs (new_ready hb.1) hcarry hcat
  have hreq' : c.readRequests =
      (rs.take (deliveries rs 0 (chunks.map fun x => x.1.length))).map fields := hreq
  have hlhs : Yields (run receive (new b) chunks) (fun c => c.readRequests = rs.map fields) ↔
      deliveries rs 0 (chunks.map fun x => x.1.length) = rs.length := by
    rw [hrun, yields_ok, hreq']
    constructor
    · intro heq
      have hlen := congrArg List.length heq
      have hle := @deliveries_le rs (chunks.map fun x => x.1.length) 0
      simp only [List.length_map, List.length_take] at hlen
      omega
    · intro heq
      rw [heq, List.take_length]
  rw [hlhs, deliveries_eq_iff]
  refine and_congr_right fun _ => ?_
  simp only [Scheduled, List.length_map, Nat.zero_add, List.map_take]
  constructor
  · rintro ⟨hlen, hj⟩ j hle
    cases j with
    | zero => omega
    | succ j => exact hj (j + 1) (by omega) hle
  · intro hj
    refine ⟨?_, fun j _ hle => hj j hle⟩
    have hzero : completeIn rs 0 = 0 := by
      cases rs with
      | nil => rfl
      | cons r rs =>
        rw [completeIn, if_neg]
        have := r.length_encode_pos
        omega
    have := hj 0 (by omega)
    simpa [hzero] using this

def rootRequest : WireRequest where
  method := .kget
  path := ascii ['/']
  query := []
  http11 := true
  headers := []
  method_ne := by decide
  path_ok := ⟨⟨by decide, by decide⟩, by decide, by decide⟩
  query_ok := ⟨⟨by decide, by decide⟩, by decide, .inl rfl⟩
  headers_ok := by simp

theorem requests_delivered_one_per_chunk :
    Yields (run receive (new ⟨List.replicate 8 0, 8, 8⟩)
      [(rootRequest.encode, .invalid), (rootRequest.encode, .invalid)])
      (fun c => c.readRequests = [rootRequest, rootRequest].map fields) := by
  refine (requests_delivered_iff _ ⟨⟨by decide, by decide, by decide⟩, rfl⟩ _ _ ?_ rfl).mpr ?_
  · decide
  · exact ⟨by decide, by decide⟩

/-- Two requests in one chunk: the second one is not delivered. -/
theorem pipelined_request_not_delivered :
    ¬ Yields (Buffer.new Buffer.kinitialSize >>= fun b => run receive (new b)
      [(encodeAll [rootRequest, rootRequest], .invalid)])
      (fun c => c.readRequests = [rootRequest, rootRequest].map fields) := by
  obtain ⟨b, hb, hrep⟩ := Buffer.new_represents Buffer.kinitialSize
  rw [hb]
  rintro ⟨c, hrun, hreq⟩
  have hall := (run_delivers [(encodeAll [rootRequest, rootRequest], .invalid)] (by decide)
    (new b) [] [rootRequest, rootRequest] (new_ready hrep.1) (carriesOn_of_new rfl hrep.2)
    (by decide)).of_eq hrun
  rw [hreq, show (new b).readRequests = [] from rfl] at hall
  exact absurd hall (by decide)

end HttpConnection

end Dwater
