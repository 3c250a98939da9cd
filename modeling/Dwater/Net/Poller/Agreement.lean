import Mathlib.Data.Set.Basic
import Dwater.Net.Poller.EpollPoller
import Dwater.Net.Poller.PollPoller

/-! # Agreement of the two pollers

The same operations are run against both pollers. They submit the same file descriptors
with the same events to the kernel, and no assertion fails in only one of them, exactly
when no removed channel is used again, no channel is removed right after its first change,
and no change of a registered channel follows one that left its interest empty and leaves
it empty again.
-/

set_option autoImplicit false
namespace Dwater

open Fallible

variable {κ : Type}

/-- What the kernel watches for the epoll poller: file descriptors with their events. -/
def EpollPoller.submitted (e : EpollPoller κ) : Set (ℤ × ℕ) :=
  { x | ∃ event, e.impl.interest x.1 = some event ∧ event.events.toNat = x.2 }

def PollPoller.submitted (p : PollPoller κ) : Set (ℤ × ℕ) :=
  { x | ∃ pfd ∈ p.pollfds, 0 ≤ pfd.fd ∧ pfd.fd = x.1 ∧ pfd.events.toNat = x.2 }

namespace Poller

/-- Both pollers stopped at an assertion, or neither did and the kernel watches the same. -/
def Agree : Except Fault (EpollPoller κ) → Except Fault (PollPoller κ) → Prop
  | .ok e, .ok p => e.submitted = p.submitted
  | .error _, .error _ => True
  | _, _ => False

end Poller

/-- Only bits that an interest can have are set. -/
def Channel.Plain (ch : Channel) : Prop := ch.events.toNat < 8

theorem ChannelOp.apply_plain (op : ChannelOp) {ch : Channel} (h : ch.Plain) :
    (op.apply ch).Plain := by
  have hor (m : BitVec 32) (hm : m.toNat < 8) : (ch.events ||| m).toNat < 8 := by
    rw [BitVec.toNat_or]
    exact Nat.or_lt_two_pow (n := 3) h hm
  have hand (m : BitVec 32) : (ch.events &&& m).toNat < 8 := by
    rw [BitVec.toNat_and]
    exact Nat.lt_of_le_of_lt Nat.and_le_left h
  cases op with
  | enableReading => exact hor _ (by decide)
  | disableReading => exact hand _
  | enableWriting => exact hor _ (by decide)
  | disableWriting => exact hand _
  | disableAll => exact (by decide : (0#32).toNat < 8)

theorem Channel.Plain.setWidth {ch : Channel} (h : ch.Plain) :
    (ch.events.setWidth 16).toNat = ch.events.toNat := by
  rw [BitVec.toNat_setWidth]
  exact Nat.mod_eq_of_lt (Nat.lt_trans h (by decide))

variable [DecidableEq κ]

theorem Channel.plain_update {f : κ → Channel} {c : κ} {ch : Channel} (hf : ∀ d, (f d).Plain)
    (hch : ch.Plain) (d : κ) : (Function.update f c ch d).Plain := by
  by_cases hdc : d = c
  · subst hdc
    rw [Function.update_self]
    exact hch
  · rw [Function.update_of_ne hdc]
    exact hf d

theorem EpollPoller.Inv.mem_submitted {e : EpollPoller κ} (h : e.Inv) {x : ℤ × ℕ} :
    x ∈ e.submitted ↔ ∃ c, e.hasChannel c = true ∧ e.index c = kadded ∧ e.fd c = x.1 ∧
      (e.channel c).events.toNat = x.2 := by
  constructor
  · rintro ⟨⟨events, c⟩, he, hx⟩
    obtain ⟨hfd, hi⟩ := h.interest_ptr he
    cases h.tag c with
    | new hn _ => exact absurd (hn.symm.trans hi) (by decide)
    | deleted hd _ _ _ => exact absurd (hd.symm.trans hi) (by decide)
    | added _ hc hl =>
      rw [Listed, hfd, he] at hl
      cases hl
      exact ⟨c, hc, hi, hfd, hx⟩
  · rintro ⟨c, _, hi, hfd, hx⟩
    have hl : e.Listed c := (h.indexTells.kadded_iff c).mp hi
    refine ⟨⟨(e.channel c).events, c⟩, ?_, hx⟩
    rw [← hfd]
    exact hl

theorem PollPoller.Inv.parked_iff {p : PollPoller κ} (h : p.Inv) {c : κ} {x : ℤ}
    (hc : p.hasChannel c = true) (hx : p.slot c = some (entry (p.channel c) x)) :
    p.parked c = true ↔ x = -p.fd c - 1 := by
  obtain ⟨y, hy, hey⟩ := h.entries hc
  have hxy : y = x := congrArg PollFd.fd (Option.some.inj (hy.symm.trans hx))
  have hpos : 0 ≤ p.fd c := Int.natCast_nonneg _
  simp only [parked, hc, hx, entry, Option.any_some, Bool.true_and, decide_eq_true_eq]
  rcases hey with rfl | ⟨rfl, _⟩ <;> omega

theorem PollPoller.Inv.mem_submitted {p : PollPoller κ} (h : p.Inv)
    (hp : ∀ c, (p.channel c).Plain) {x : ℤ × ℕ} :
    x ∈ p.submitted ↔ ∃ c, p.hasChannel c = true ∧ p.parked c = false ∧ p.fd c = x.1 ∧
      (p.channel c).events.toNat = x.2 := by
  constructor
  · rintro ⟨pfd, hmem, hpos, hfd, hx⟩
    obtain ⟨c, hc, hs⟩ := h.slotted.mem_iff.mp hmem
    obtain ⟨y, hy, hey⟩ := h.entries hc
    obtain rfl : entry (p.channel c) y = pfd := Option.some.inj (hy.symm.trans hs)
    have hfd₀ : 0 ≤ p.fd c := Int.natCast_nonneg _
    have hy' : y = p.fd c := by
      rcases hey with hey | ⟨rfl, _⟩
      · exact hey
      · simp only [entry] at hpos
        omega
    refine ⟨c, hc, ?_, hy'.symm.trans hfd, (hp c).setWidth.symm.trans hx⟩
    rw [Bool.eq_false_iff, Ne, h.parked_iff hc hy]
    omega
  · rintro ⟨c, hc, hpark, hfd, hx⟩
    obtain ⟨y, hy, hey⟩ := h.entries hc
    have hy' : y = p.fd c := by
      refine hey.resolve_right fun hneg => ?_
      rw [Bool.eq_false_iff] at hpark
      exact hpark ((h.parked_iff hc hy).mpr hneg.1)
    have hpos : 0 ≤ p.fd c := Int.natCast_nonneg _
    exact ⟨_, h.slotted.mem_iff.mpr ⟨c, hc, hy⟩, hy' ▸ hpos, hy'.trans hfd,
      (hp c).setWidth.trans hx⟩

namespace Poller

/-- Both pollers have the same channels registered, and a channel is outside the interest list of
the one exactly when its entry of the other is negated. -/
structure Related (fd : κ → ℕ) (e : EpollPoller κ) (p : PollPoller κ) : Prop where
  epoll_inv : e.Inv
  poll_inv : p.Inv
  channel_eq : e.channel = p.channel
  channels_eq : e.channels = p.channels
  parked_iff : ∀ {c}, p.hasChannel c = true → (e.index c = EpollPoller.kdelete ↔ p.parked c = true)
  plain : ∀ c, (p.channel c).Plain
  fd_eq : ∀ c, (p.channel c).fd = fd c

variable {fd : κ → ℕ} {e : EpollPoller κ} {p : PollPoller κ} {c : κ}

namespace Related

theorem fd_same (h : Related fd e p) (c : κ) : e.fd c = p.fd c := by
  simp only [Poller.fd, h.channel_eq]

theorem has_same (h : Related fd e p) (c : κ) : e.hasChannel c = p.hasChannel c := by
  simp only [Poller.hasChannel, h.fd_same, h.channels_eq]

theorem owns (h : Related fd e p) (hfd : Function.Injective fd) {d : κ} (he : p.fd d = p.fd c) :
    d = c := by
  simp only [Poller.fd, h.fd_eq] at he
  exact hfd (Int.ofNat_inj.mp he)

theorem index_cases (h : Related fd e p) (hc : p.hasChannel c = true) :
    e.index c = EpollPoller.kadded ∧ p.parked c = false ∨
      e.index c = EpollPoller.kdelete ∧ p.parked c = true := by
  rcases h.epoll_inv.registered (h.has_same c ▸ hc) with ⟨hi, _⟩ | ⟨hi, _⟩
  · refine .inl ⟨hi, Bool.eq_false_iff.mpr fun hp => ?_⟩
    exact absurd (((h.parked_iff hc).mpr hp).symm.trans hi) (by decide)
  · exact .inr ⟨hi, (h.parked_iff hc).mp hi⟩

theorem submitted_eq (h : Related fd e p) : e.submitted = p.submitted := by
  ext x
  rw [h.epoll_inv.mem_submitted, h.poll_inv.mem_submitted h.plain]
  apply exists_congr
  intro c
  rw [h.has_same, h.fd_same, h.channel_eq]
  apply and_congr_right
  intro hc
  apply and_congr_left
  intro _
  rcases h.index_cases hc with ⟨hi, hp⟩ | ⟨hi, hp⟩
  · simp [hi, hp]
  · simp [hi, hp, EpollPoller.kadded, EpollPoller.kdelete]

theorem ownsFd (h : Related fd e p) (hfd : Function.Injective fd) (x : PollerLabel κ) :
    e.OwnsFd x ∧ p.OwnsFd x := by
  cases x with
  | remove c => exact ⟨trivial, trivial⟩
  | change c op =>
    refine ⟨?_, fun d _ he => h.owns hfd he⟩
    intro d _ he
    rw [h.fd_same, h.fd_same] at he
    exact h.owns hfd he

theorem put (h : Related fd e p) {p' : PollPoller κ} {ch : Channel} {i : ℤ} {r : Option κ}
    {entry : Option (EpollEvent κ)} {calls : List EpollCtl}
    (hei : (e.put c ch i r entry calls).Inv) (hpi : p'.Inv)
    (hch : p'.channel = Function.update p.channel c ch) (hfd : ch.fd = (p.channel c).fd)
    (hplain : ch.Plain) (hchs : p'.channels = Function.update p.channels (p.fd c) r)
    (hother : ∀ d, d ≠ c → p'.hasChannel d = true → p.hasChannel d = true ∧ p'.slot d = p.slot d)
    (hself : p'.hasChannel c = true → (i = EpollPoller.kdelete ↔ p'.parked c = true)) :
    Related fd (e.put c ch i r entry calls) p' where
  epoll_inv := hei
  poll_inv := hpi
  channel_eq := by rw [hch, ← h.channel_eq]; rfl
  channels_eq := by rw [hchs, ← h.channels_eq, ← h.fd_same]; rfl
  parked_iff {d} hd := by
    by_cases hdc : d = c
    · subst hdc
      rw [EpollPoller.put_index_self]
      exact hself hd
    · obtain ⟨hreg, hslot⟩ := hother d hdc hd
      have hi : (e.put c ch i r entry calls).index d = e.index d := Function.update_of_ne hdc ..
      rw [hi, h.parked_iff hreg, PollPoller.parked, PollPoller.parked, hslot, hreg, hd]
  plain d := by
    rw [hch]
    exact Channel.plain_update h.plain hplain d
  fd_eq d := by
    rw [hch]
    by_cases hdc : d = c
    · subst hdc
      rw [Function.update_self, hfd]
      exact h.fd_eq d
    · rw [Function.update_of_ne hdc]
      exact h.fd_eq d

theorem changed (h : Related fd e p) (hfd : Function.Injective fd) {op : ChannelOp}
    {e' : EpollPoller κ} {p' : PollPoller κ} (hk : p.KeepsParking (.change c op))
    (he : e.Stepped (.change c op) e') (hp : p.Stepped (.change c op) p') : Related fd e' p' := by
  obtain ⟨hoe, hop⟩ := h.ownsFd hfd (.change c op)
  have hei := he.inv h.epoll_inv hoe
  have hpi := hp.inv h.poll_inv hop
  cases hp with
  | @placed _ _ _ y hch hchs _ hslot hself hy =>
    have hpfd := Poller.fd_of_update hch (op.apply_fd _)
    have hlive := Poller.hasChannel_register hpfd hchs hop
    have hc' : p'.hasChannel c = true := (hlive c).mpr (.inr rfl)
    have hself' : p'.slot c = some (PollPoller.entry (p'.channel c) y) := by
      rw [hch, Function.update_self]
      exact hself
    have hpark := hpi.parked_iff hc' hself'
    rw [hpfd] at hpark
    have hother (d : κ) (hdc : d ≠ c) (hd : p'.hasChannel d = true) :
        p.hasChannel d = true ∧ p'.slot d = p.slot d := by
      have hreg := ((hlive d).mp hd).resolve_right hdc
      exact ⟨hreg, hslot d hdc hreg⟩
    have hpos : 0 ≤ p.fd c := Int.natCast_nonneg _
    have hplain := op.apply_plain (h.plain c)
    cases he with
    | @listed _ _ call hl hne =>
      rw [h.channel_eq] at hei hne ⊢
      refine h.put hei hpi hch (op.apply_fd _) hplain hchs hother fun _ => ?_
      rw [hpark]
      refine ⟨fun hi => absurd hi (by decide), fun hy' => ?_⟩
      rcases hy with ⟨hy, _⟩ | ⟨_, hreg, hz⟩
      · omega
      · rcases h.index_cases hreg with ⟨hi, _⟩ | ⟨_, hpk⟩
        · exact absurd hi (hne hz)
        · exact absurd hpk (by simp [hk.2 hz])
    | @deleted _ _ call hl hi hz =>
      rw [h.channel_eq] at hei hz ⊢
      refine h.put hei hpi hch (op.apply_fd _) hplain hchs hother fun _ => ?_
      rw [hpark, iff_true_left rfl]
      rcases hy with ⟨_, hnot⟩ | ⟨hy, _⟩
      · have hreg : e.hasChannel c = true := by
          cases h.epoll_inv.tag c with
          | new hn _ => exact absurd (hn.symm.trans hi) (by decide)
          | added _ hc _ => exact hc
          | deleted _ hc _ _ => exact hc
        rw [h.has_same, hnot hz] at hreg
        cases hreg
      · exact hy

theorem removed (h : Related fd e p) {e' : EpollPoller κ} {p' : PollPoller κ}
    (he : e.Stepped (.remove c) e') (hp : p.Stepped (.remove c) p') : Related fd e' p' := by
  have hei := he.inv (x := .remove c) h.epoll_inv trivial
  have hpi := hp.inv (x := .remove c) h.poll_inv trivial
  cases hp with
  | @removed _ _ hc hz hch hchs _ hslot =>
    have hpfd := Poller.fd_of_update hch (by rfl)
    have hlive := Poller.hasChannel_unregister hpfd hchs hc
    cases he with
    | @removed _ calls hl _ _ =>
      rw [h.channel_eq] at hei ⊢
      refine h.put hei hpi hch (by rfl) (h.plain c) hchs ?_ ?_
      · intro d hdc hd
        have hreg := ((hlive d).mp hd).1
        exact ⟨hreg, hslot d hdc hreg⟩
      · intro hcontra
        exact absurd rfl ((hlive c).mp hcontra).2
    | notRemoved hg =>
      rw [h.has_same, h.channel_eq] at hg
      exact absurd ⟨hc, hz⟩ hg
  | notRemoved hg =>
    cases he with
    | @removed _ _ _ hc hz =>
      rw [h.has_same] at hc
      rw [h.channel_eq] at hz
      exact absurd ⟨hc, hz⟩ hg
    | notRemoved _ => exact h

theorem step (h : Related fd e p) (hfd : Function.Injective fd) {x : PollerLabel κ}
    (hk : p.KeepsParking x) :
    ∃ e' p', EpollPoller.step e x = .ok e' ∧ PollPoller.step p x = .ok p' ∧ Related fd e' p' := by
  obtain ⟨hoe, hop⟩ := h.ownsFd hfd x
  obtain ⟨e', he, hse⟩ := EpollPoller.step_stepped h.epoll_inv hoe
  obtain ⟨p', hp, hsp⟩ := PollPoller.step_stepped h.poll_inv hop hk
  refine ⟨e', p', he, hp, ?_⟩
  cases x with
  | change c op => exact h.changed hfd hk hse hsp
  | remove c => exact h.removed hse hsp

/-- A second change to an empty interest is submitted to the kernel by the epoll poller only. -/
theorem not_agree_parked (h : Related fd e p) (hfd : Function.Injective fd) {op : ChannelOp}
    (hz : (op.apply (p.channel c)).isNoneEvent = true) (hpark : p.parked c = true) :
    ¬ Agree (EpollPoller.step e (.change c op)) (PollPoller.step p (.change c op)) := by
  have hc : p.hasChannel c = true := (Bool.and_eq_true _ _ ▸ hpark).1
  have hi : e.index c = EpollPoller.kdelete := (h.parked_iff hc).mpr hpark
  obtain ⟨hoe, hop⟩ := h.ownsFd hfd (.change c op)
  obtain ⟨e', he, hse⟩ := EpollPoller.step_stepped h.epoll_inv hoe
  obtain ⟨p', hp, hsp⟩ : Yields (PollPoller.step p (.change c op)) (p.Stepped (.change c op)) :=
    PollPoller.step_change_registered h.poll_inv hc
  have hei := hse.inv h.epoll_inv hoe
  have hpi := hsp.inv h.poll_inv hop
  rw [he, hp]
  intro hsub
  have hmem : (p.fd c, (op.apply (p.channel c)).events.toNat) ∈ e'.submitted := by
    cases hse with
    | @listed _ _ call hl hne =>
      rw [h.channel_eq] at hei ⊢
      refine hei.mem_submitted.mpr ⟨c, ?_, EpollPoller.put_index_self, ?_, ?_⟩
      · rw [hasChannel_iff, EpollPoller.put_fd, EpollPoller.put_channels_self]
        rw [h.channel_eq, op.apply_fd]
      · rw [EpollPoller.put_fd, h.fd_same]
        rw [h.channel_eq, op.apply_fd]
      · rw [EpollPoller.put_channel_self]
    | deleted _ hi' _ => exact absurd (hi.symm.trans hi') (by decide)
  have hplain (d : κ) : (p'.channel d).Plain := by
    cases hsp with
    | placed hch =>
      rw [hch]
      exact Channel.plain_update h.plain (op.apply_plain (h.plain c)) d
  rw [show e'.submitted = p'.submitted from hsub, hpi.mem_submitted hplain] at hmem
  obtain ⟨d, hd, hdpark, hdfd, _⟩ := hmem
  cases hsp with
  | @placed _ _ _ y hch hchs _ _ hself hy =>
    have hpfd := fd_of_update hch (op.apply_fd _)
    rw [hpfd] at hdfd
    obtain rfl : d = c := h.owns hfd hdfd
    have hself' : p'.slot d = some (PollPoller.entry (p'.channel d) y) := by
      rw [hch, Function.update_self]
      exact hself
    rcases hy with ⟨_, hnot⟩ | ⟨hy, _⟩
    · exact absurd hc (by simp [hnot hz])
    · have hpark' := (hpi.parked_iff hd hself').mpr (by rw [hpfd]; exact hy)
      exact absurd hpark' (by simp [hdpark])

theorem not_agree (h : Related fd e p) (hfd : Function.Injective fd) {x : PollerLabel κ}
    (hk : ¬ p.KeepsParking x) : ¬ Agree (EpollPoller.step e x) (PollPoller.step p x) := by
  obtain ⟨hoe, hop⟩ := h.ownsFd hfd x
  obtain ⟨e', he, -⟩ := EpollPoller.step_stepped h.epoll_inv hoe
  cases x with
  | change c op =>
    by_cases hi : 0 ≤ p.index c → p.hasChannel c = true
    · have hpark : (op.apply (p.channel c)).isNoneEvent = true ∧ ¬ p.parked c = false :=
        Classical.not_imp.mp fun hpark => hk ⟨hi, hpark⟩
      exact h.not_agree_parked hfd hpark.1 (by simpa using hpark.2)
    · obtain ⟨hi, hc⟩ := Classical.not_imp.mp hi
      rw [he, PollPoller.step_change_removed h.poll_inv hi (by simpa using hc) hop]
      exact id
  | remove c =>
    obtain ⟨hc, hrest⟩ := Classical.not_imp.mp hk
    obtain ⟨hz, hpark⟩ := Classical.not_imp.mp hrest
    rw [he, PollPoller.step_remove_unparked h.poll_inv hc hz (by simpa using hpark)]
    exact id

end Related

theorem agree_iff (hfd : Function.Injective fd) {labels : List (PollerLabel κ)} :
    ∀ {e : EpollPoller κ} {p : PollPoller κ}, Related fd e p →
      ((∀ n, Agree (run EpollPoller.step e (labels.take n))
        (run PollPoller.step p (labels.take n))) ↔
      Along PollPoller.step PollPoller.KeepsParking p labels) := by
  induction labels with
  | nil =>
    intro e p h
    simp [Along, Agree, h.submitted_eq]
  | cons x labels ih =>
    intro e p h
    constructor
    · intro ha
      have hk : p.KeepsParking x := by
        by_contra hk
        refine h.not_agree hfd hk ?_
        have h₁ := ha 1
        rwa [List.take_succ_cons, List.take_zero, run_singleton, run_singleton] at h₁
      obtain ⟨e', p', he, hp, h'⟩ := h.step hfd hk
      refine along_cons hk hp ((ih h').mp fun n => ?_)
      have hn := ha (n + 1)
      rwa [List.take_succ_cons, run_cons_of_ok he, run_cons_of_ok hp] at hn
    · rintro ⟨hk, hal⟩
      obtain ⟨e', p', he, hp, h'⟩ := h.step hfd hk
      intro n
      cases n with
      | zero => exact h.submitted_eq
      | succ n =>
        rw [List.take_succ_cons, run_cons_of_ok he, run_cons_of_ok hp]
        exact (ih h').mpr (hal p' hp) n

theorem new_related (fd : κ → ℕ) : Related fd (EpollPoller.new fd) (PollPoller.new fd) where
  epoll_inv := EpollPoller.new_inv fd
  poll_inv := PollPoller.new_inv fd
  channel_eq := rfl
  channels_eq := rfl
  parked_iff hc := by simp [hasChannel, PollPoller.new, new] at hc
  plain _ := show (0#32).toNat < 8 by decide
  fd_eq _ := rfl

/-- The two pollers agree after every operation of a sequence exactly when the sequence uses no
removed channel again, removes no channel right after its first change, and makes no change to an
empty interest for a channel whose entry is negated already. -/
theorem pollers_agree_iff (fd : κ → ℕ) (hfd : Function.Injective fd)
    (labels : List (PollerLabel κ)) :
    (∀ n, Agree (run EpollPoller.step (EpollPoller.new fd) (labels.take n))
      (run PollPoller.step (PollPoller.new fd) (labels.take n))) ↔
      Along PollPoller.step PollPoller.KeepsParking (PollPoller.new fd) labels :=
  agree_iff hfd (new_related fd)

/-- A channel that reads, stops and is removed. -/
theorem pollers_agree_removed :
    Agree (run EpollPoller.step (EpollPoller.new fun _ : Unit => 5)
        [.change () .enableReading, .change () .disableAll, .remove ()])
      (run PollPoller.step (PollPoller.new fun _ : Unit => 5)
        [.change () .enableReading, .change () .disableAll, .remove ()]) := by
  refine (pollers_agree_iff (fun _ : Unit => 5) (fun _ _ _ => rfl)
    [.change () .enableReading, .change () .disableAll, .remove ()]).mpr ?_ 3
  refine along_cons ⟨fun hi => absurd hi (by decide), fun hz => absurd hz (by decide)⟩ rfl ?_
  refine along_cons ⟨fun _ => rfl, fun _ => rfl⟩ rfl ?_
  exact along_cons (fun _ _ => rfl) rfl trivial

/-- A channel enabled again after `Remove` fails an assertion of the poll poller only. -/
theorem pollers_differ_reenabled :
    ¬ Agree (run EpollPoller.step (EpollPoller.new fun _ : Unit => 5)
        [.change () .enableReading, .change () .disableAll, .remove (), .change () .enableReading])
      (run PollPoller.step (PollPoller.new fun _ : Unit => 5)
        [.change () .enableReading, .change () .disableAll, .remove (),
          .change () .enableReading]) :=
  id

end Poller

end Dwater
