import Dwater.Net.Http.Reading

/-! # Parsing a request piece by piece

`ParseRequest` leaves the bytes of an incomplete line in the buffer and keeps everything
else it needs in the context. A call that stopped for want of bytes is therefore resumed
by the next one, and a request comes out the same however its bytes were split.
-/

set_option autoImplicit false
namespace Dwater

open Fallible Search Buffer

/-- What a call of `ParseRequest` returns and leaves, but for the receive time. -/
abbrev ParseOutcome := Bool × Reader × List Byte

/-- The returned value, the context without its receive time and the bytes still in the buffer. -/
def parseOutcome (r : Bool × HttpContext × Buffer) : ParseOutcome :=
  (r.1, r.2.1.reader, r.2.2.content)

def SameOutcome (x y : Except Fault (Bool × HttpContext × Buffer)) : Prop :=
  ∃ r s, x = .ok r ∧ y = .ok s ∧ parseOutcome r = parseOutcome s

namespace Reads

variable {c c' : Reader} {q q' : List Byte} {ok : Bool}

/-- A reader that stopped for want of bytes can go on. -/
theorem clean (h : Reads c q ok c' q') (hc : c.Clean) (hok : ok = true)
    (hg : c'.state ≠ .kGotAll) : c'.Clean := by
  induction h with
  | blocked => exact hc
  | rejected => cases hok
  | requestLine _ _ _ ih => exact ih ⟨.inr rfl, fun hs => nomatch hs⟩ hok hg
  | header _ _ _ ih => exact ih ⟨.inr rfl, fun hs => nomatch hs⟩ hok hg
  | ended => exact absurd rfl hg

end Reads

namespace HttpContext

variable {c : HttpContext} {b whole : Buffer} {q x : List Byte}

/-- Further bytes arrive at the buffer and `ParseRequest` is called again. -/
def parseMore (c : HttpContext) (buf : Buffer) (chunk : List Byte) (receiveTime : Timestamp) :
    Except Fault (Bool × HttpContext × Buffer) := do
  let buf ← buf.append chunk
  c.parseRequest buf receiveTime

/--
The bytes of one request arrive in pieces. `ParseRequest` is called after each of them until it
rejects the request or has got all of it; what arrives later stays in the buffer.
-/
def parsePieces (c : HttpContext) (buf : Buffer) :
    List (List Byte × Timestamp) → Except Fault (Bool × HttpContext × Buffer)
  | [] => return (true, c, buf)
  | (chunk, receiveTime) :: pieces => do
    let (ok, c, buf) ← c.parseMore buf chunk receiveTime
    if ok ∧ c.state ≠ .kGotAll then c.parsePieces buf pieces
    else
      let buf ← buf.append (pieces.flatMap Prod.fst)
      return (ok, c, buf)

/-- Whatever the second reader makes of its bytes and more, the first makes of its own and more. -/
def Continues (c : Reader) (q : List Byte) (c' : Reader) (q' : List Byte) : Prop :=
  ∀ x ok c₁ q₁, Reads c' (q' ++ x) ok c₁ q₁ → Reads c (q ++ x) ok c₁ q₁

/-- A call with further bytes reads on from where the reader stopped. -/
theorem parseMore_reads {c' : HttpContext} {b' : Buffer} {r : Reader} {q' : List Byte}
    (t : Timestamp) (hc : c'.reader.Clean) (hcont : Continues r q c'.reader q')
    (hb : b'.Represents q') (x : List Byte) :
    Yields (c'.parseMore b' x t) fun s => ∃ q₁, s.2.2.Represents q₁ ∧
      Reads r (q ++ x) s.1 s.2.1.reader q₁ ∧
      (s.1 = true → s.2.1.state ≠ .kGotAll → s.2.1.reader.Clean) := by
  refine yields_bind (append_represents hb x) fun more hmore => ?_
  refine (parseRequest_reads t hmore hc).mono ?_
  rintro s ⟨q₁, hrep, hreads⟩
  exact ⟨q₁, hrep, hcont _ _ _ _ hreads, hreads.clean hc⟩

/-- Once a request is complete or rejected, further bytes only wait behind it. -/
theorem reads_append {r : Reader} {s : Bool × HttpContext × Buffer} {q' : List Byte}
    (hreads : Reads r q s.1 s.2.1.reader q')
    (hend : ¬ (s.1 = true ∧ s.2.1.state ≠ .kGotAll)) (x : List Byte) :
    Reads r (q ++ x) s.1 s.2.1.reader (q' ++ x) := by
  by_cases hg : s.2.1.state = .kGotAll
  · exact hreads.complete_append hg x
  · have hok : s.1 = false := by
      by_contra hok
      exact hend ⟨by simpa using hok, hg⟩
    rw [hok] at hreads ⊢
    exact hreads.rejected_append x

theorem parsePieces_reads {r : Reader} (pieces : List (List Byte × Timestamp)) :
    ∀ {c' : HttpContext} {b' : Buffer} {q q' : List Byte}, c'.reader.Clean →
      Continues r q c'.reader q' → b'.Represents q' →
      (pieces = [] → Reads r q true c'.reader q') →
      Yields (c'.parsePieces b' pieces) fun s => ∃ q₁, s.2.2.Represents q₁ ∧
        Reads r (q ++ pieces.flatMap Prod.fst) s.1 s.2.1.reader q₁ := by
  induction pieces with
  | nil =>
    intro c' b' q q' _ _ hb hreads
    refine yields_pure.mpr ⟨q', hb, ?_⟩
    rw [List.flatMap_nil, List.append_nil]
    exact hreads rfl
  | cons piece pieces ih =>
    obtain ⟨x, t⟩ := piece
    intro c' b' q q' hc hcont hb _
    refine yields_bind (parseMore_reads t hc hcont hb x) ?_
    rintro s ⟨q₁, hb₁, hreads, hclean⟩
    rw [List.flatMap_cons, ← List.append_assoc]
    dsimp only
    split
    · next hmore =>
      rw [hmore.1] at hreads
      exact ih (hclean hmore.1 hmore.2) (fun _ _ _ _ => hreads.resume hmore.2) hb₁ fun _ => hreads
    · next hend =>
      refine yields_bind (append_represents hb₁ _) fun b₂ hb₂ => yields_pure.mpr ?_
      exact ⟨_, hb₂, reads_append hreads hend _⟩

theorem sameOutcome_of_reads {y : Except Fault (Bool × HttpContext × Buffer)}
    (hc : c.reader.Clean) (hw : whole.Represents q) (t : Timestamp)
    (hy : Yields y fun s => ∃ q₁, s.2.2.Represents q₁ ∧ Reads c.reader q s.1 s.2.1.reader q₁) :
    SameOutcome y (c.parseRequest whole t) := by
  obtain ⟨s, hs, q₁, hrep, hreads⟩ := hy
  obtain ⟨r, hr, q₂, hrep', hreads'⟩ := parseRequest_reads t hw hc
  obtain ⟨hok, hreader, hq⟩ := hreads.deterministic hreads'
  refine ⟨s, r, hs, hr, ?_⟩
  simp only [parseOutcome, hrep.2, hrep'.2, hok, hreader, hq]

/--
A call that stopped for want of bytes is resumed by a call with more of them as if it had found all
of them at once, and a request comes out the same in whichever pieces its bytes arrive.
-/
theorem parse_incremental (c : HttpContext) (b : Buffer) (hb : b.Inv)
    (hs : c.state = .kexpectRequestLine ∧ c.request.method = .kinvalid ∨
      c.state = .kexpectHeaders) :
    (∀ t, Yields (c.parseRequest b t) fun first =>
      first.1 = true → first.2.1.state ≠ .kGotAll →
        ∀ x t' whole t'', whole.Represents (b.content ++ x) →
          SameOutcome (first.2.1.parseMore first.2.2 x t') (c.parseRequest whole t'')) ∧
    ∀ piece pieces whole t,
      whole.Represents (b.content ++ (piece :: pieces).flatMap Prod.fst) →
        SameOutcome (c.parsePieces b (piece :: pieces)) (c.parseRequest whole t) := by
  have hc : c.reader.Clean := by
    rcases hs with ⟨hstate, hmethod⟩ | hstate
    · exact ⟨.inl hstate, fun _ => hmethod⟩
    · refine ⟨.inr hstate, fun h => ?_⟩
      cases hstate.symm.trans h
  constructor
  · intro t
    refine (parseRequest_reads t hb.represents hc).mono ?_
    rintro first ⟨q', hrep, hreads⟩ hok hg x t' whole t'' hw
    rw [hok] at hreads
    have hmore := parseMore_reads t' (hreads.clean hc rfl hg)
      (fun _ _ _ _ => hreads.resume hg) hrep x
    refine sameOutcome_of_reads hc hw t'' (hmore.mono ?_)
    rintro s ⟨q₁, hrep₁, hreads₁, -⟩
    exact ⟨q₁, hrep₁, hreads₁⟩
  · intro piece pieces whole t hw
    refine sameOutcome_of_reads hc hw t ?_
    exact parsePieces_reads (piece :: pieces) hc (fun _ _ _ _ h => h) hb.represents
      fun h => nomatch h

/-- A request line cut between its carriage return and its line feed, and a header line after it. -/
theorem parse_incremental_split_line_end :
    ∃ b : Buffer, b.content = ascii ['G', 'E', 'T', ' ', '/', ' ', 'H', 'T', 'T',
        'P', '/', '1', '.',
        '1', '\r'] ∧
      ∀ t t', SameOutcome
        (new.parsePieces b [(ascii ['\n', 'a'], t), (ascii [':', 'b', '\r', '\n'], t)])
        (new.parseRequest ⟨b.buffer ++ ascii ['\n', 'a', ':', 'b', '\r', '\n'], 8, 29⟩ t') := by
  let text := ascii ['G', 'E', 'T', ' ', '/', ' ', 'H', 'T', 'T', 'P', '/', '1', '.', '1', '\r']
  let b : Buffer := ⟨List.replicate 8 0 ++ text, 8, 23⟩
  have hb : b.Inv := ⟨by decide, by decide, by decide⟩
  refine ⟨b, by decide, fun t t' => ?_⟩
  refine (parse_incremental new b hb (.inl ⟨rfl, rfl⟩)).2 _ _ _ t' ?_
  exact ⟨⟨by decide, by decide, by decide⟩, rfl⟩

end HttpContext

end Dwater
