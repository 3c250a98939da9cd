import Dwater.Base.Endian
import Dwater.Base.TimeZone

/-! # Zone files

`ReadTimeZoneFile` reads the counts of a zone file and then as many times, indices, rules and
characters. Its readers throw a `logic_error` when the file is too short, which is caught
around the whole reading, so that the data read up to there is what remains.
-/

set_option autoImplicit false
namespace Dwater

open Fallible Radix

/-- A `logic_error`, or a `length_error`, which is one. -/
structure LogicError where
  what : String
  deriving DecidableEq, Repr

/-- A file that is being read, by the bytes that are left, and the data read from it. -/
structure ZoneReading where
  rest : List Byte
  data : ZoneData
  deriving DecidableEq, Repr

abbrev ZoneReader := ExceptT LogicError (StateT ZoneReading (Except Fault))

namespace ZoneReader

variable {α β : Type}

/-- `fread(buf, 1, n, fp_)`: the bytes read, `n` unless the file ends. -/
def fread (n : ℕ) : ZoneReader (List Byte) := do
  let s ← get
  set { s with rest := s.rest.drop n }
  return s.rest.take n

def readBytes (n : ℤ) : ZoneReader (List Byte) := do
  -- an array of negative length
  let _ ← (check (0 ≤ n) (.outOfBounds .time_zone_cc 115) : Except Fault Unit)
  let buf ← fread n.toNat
  if buf.length ≠ n then throw ⟨"no enough data"⟩
  return buf

/-- `be32toh(x)`, where `x` has been read into the memory of an `int32_t`. -/
def toInt32 (order : ByteOrder) (x : List Byte) : Int32 :=
  (UInt32.ofNat (order.swapToNetwork 4 (order.load x))).toInt32

def readInt32 (order : ByteOrder) : ZoneReader Int32 := do
  let x ← fread 4
  if x.length ≠ 4 then throw ⟨"bad int32_t data"⟩
  return toInt32 order x

def readUInt8 : ZoneReader Byte := do
  let x ← fread 1
  if x.length ≠ 1 then throw ⟨"bad uint8_t data"⟩
  return x.headD 0

def readMany (read : ZoneReader α) : ℕ → ZoneReader (List α)
  | 0 => return []
  | n + 1 => do
    let x ← read
    let xs ← readMany read n
    return x :: xs

def readLocaltimes (order : ByteOrder) : ℕ → ZoneReader Unit
  | 0 => return ()
  | n + 1 => do
    let gmtoff ← readInt32 order
    let isdst ← readUInt8
    let abbrind ← readUInt8
    modify fun s => { s with data := { s.data with
      localtimes := s.data.localtimes ++ [⟨gmtoff.toInt, isdst ≠ 0, abbrind.toNat⟩] } }
    readLocaltimes order n

def addTransitions : List (Int32 × Byte) → ZoneReader Unit
  | [] => return ()
  | (gmttime, localIdx) :: rest => do
    let s ← get
    let found ← s.data.localtimeAt localIdx.toNat 184
    let localtime := gmttime.toInt + found.gmtOffset
    modify fun s => { s with data := { s.data with
      transitions := s.data.transitions ++ [⟨gmttime.toInt, localtime, localIdx.toNat⟩] } }
    addTransitions rest

def readZone (order : ByteOrder) : ZoneReader Unit := do
  let head ← readBytes 4
  if head ≠ ascii ['T', 'Z', 'i', 'f'] then throw ⟨"bad head"⟩
  let _version ← readBytes 1
  let _reserved ← readBytes 15
  let _isgmtcnt ← readInt32 order
  let _isstdcnt ← readInt32 order
  let _leapcnt ← readInt32 order
  let timecnt ← readInt32 order
  let typecnt ← readInt32 order
  let charcnt ← readInt32 order
  -- the conversion to `size_t` makes a negative count larger than `max_size()`
  if timecnt < 0 then throw ⟨"vector::reserve"⟩
  let trans ← readMany (readInt32 order) timecnt.toInt.toNat
  let localtimes ← readMany readUInt8 timecnt.toInt.toNat
  readLocaltimes order typecnt.toInt.toNat
  addTransitions (trans.zip localtimes)
  let abbreviation ← readBytes charcnt.toInt
  modify fun s => { s with data := { s.data with
    abbreviation := abbreviation.map fun c => Char.ofNat c.toNat } }

end ZoneReader

namespace TimeZone

def emptyData : ZoneData := ⟨[], [], []⟩

/-- The file is absent or has these bytes; what is returned, and the data. -/
def readTimeZoneFile (order : ByteOrder) : Option (List Byte) → Except Fault (Bool × ZoneData)
  | none => return (true, emptyData)
  | some bytes => do
    -- what is thrown is caught and printed
    let (_, s) ← (ZoneReader.readZone order).run.run ⟨bytes, emptyData⟩
    return (true, s.data)

def new (order : ByteOrder) (zoneFile : Option (List Byte)) : Except Fault TimeZone := do
  let (ok, data) ← readTimeZoneFile order zoneFile
  return if ok then ⟨some data⟩ else ⟨none⟩

def valid (zone : TimeZone) : Bool := zone.data.isSome

end TimeZone

namespace ZoneReader

variable {α β : Type} {m : ZoneReader α} {f : α → ZoneReader β} {s s' t : ZoneReading} {a : α}
  {b : β}

def Reads (m : ZoneReader α) (s : ZoneReading) (a : α) (s' : ZoneReading) : Prop :=
  m.run.run s = .ok (.ok a, s')

theorem reads_pure {a' : α} : Reads (pure a') s a s' ↔ a' = a ∧ s = s' := by
  have hrun : (pure a' : ZoneReader α).run.run s = .ok (.ok a', s) := rfl
  rw [Reads, hrun]
  simp

theorem reads_bind : Reads (m >>= f) s b s' ↔ ∃ a t, Reads m s a t ∧ Reads (f a) t b s' := by
  unfold Reads
  simp only [ExceptT.run_bind, StateT.run_bind]
  cases m.run.run s with
  | error e => simp [bind, Except.bind]
  | ok r =>
    obtain ⟨r, t⟩ := r
    cases r with
    | error e =>
      have hrun :
          (pure (.error e) : StateT ZoneReading (Except Fault) (Except LogicError β)).run t =
            .ok (.error e, t) := rfl
      simp [bind, Except.bind, hrun]
    | ok a => simp [bind, Except.bind]

theorem reads_get {t : ZoneReading} : Reads (get : ZoneReader ZoneReading) s t s' ↔
    s = t ∧ s = s' := by
  have hrun : (get : ZoneReader ZoneReading).run.run s = .ok (.ok s, s) := rfl
  rw [Reads, hrun]
  simp

theorem reads_set {u : PUnit} : Reads (set t : ZoneReader PUnit) s u s' ↔ t = s' := by
  have hrun : (set t : ZoneReader PUnit).run.run s = .ok (.ok u, t) := rfl
  rw [Reads, hrun]
  simp

theorem reads_modify {g : ZoneReading → ZoneReading} {u : PUnit} :
    Reads (modify g : ZoneReader PUnit) s u s' ↔ g s = s' := by
  have hrun : (modify g : ZoneReader PUnit).run.run s = .ok (.ok u, g s) := rfl
  rw [Reads, hrun]
  simp

theorem reads_lift {x : Except Fault α} :
    Reads (liftM x : ZoneReader α) s a s' ↔ x = .ok a ∧ s = s' := by
  cases x with
  | error e =>
    have hrun : (liftM (.error e : Except Fault α) : ZoneReader α).run.run s = .error e := rfl
    rw [Reads, hrun]
    simp
  | ok a' =>
    have hrun : (liftM (.ok a' : Except Fault α) : ZoneReader α).run.run s = .ok (.ok a', s) := rfl
    rw [Reads, hrun]
    simp

theorem reads_throwIf {c : Prop} [Decidable c] {e : LogicError} {g : PUnit → ZoneReader α} :
    Reads (if c then (throw e : ZoneReader PUnit) >>= g else m) s a s' ↔ ¬ c ∧ Reads m s a s' := by
  split
  · next h =>
    have hrun : ((throw e : ZoneReader PUnit) >>= g).run.run s = .ok (.error e, s) := rfl
    rw [Reads, hrun]
    simp [h]
  · next h => simp [h]

theorem reads_fread {n : ℕ} {buf : List Byte} :
    Reads (fread n) s buf s' ↔ buf = s.rest.take n ∧ s' = { s with rest := s.rest.drop n } := by
  unfold fread
  simp only [reads_bind, reads_get, reads_set, reads_pure]
  constructor
  · rintro ⟨_, _, ⟨rfl, rfl⟩, _, _, rfl, rfl, rfl⟩
    exact ⟨rfl, rfl⟩
  · rintro ⟨rfl, rfl⟩
    exact ⟨s, s, ⟨rfl, rfl⟩, ⟨⟩, _, rfl, rfl, rfl⟩

theorem reads_freadAll {n : ℕ} {buf : List Byte} :
    (Reads (fread n) s buf s' ∧ buf.length = n) ↔
      s.rest = buf ++ s'.rest ∧ buf.length = n ∧ s'.data = s.data := by
  rw [reads_fread]
  constructor
  · rintro ⟨⟨rfl, rfl⟩, hlen⟩
    exact ⟨(List.take_append_drop n s.rest).symm, hlen, rfl⟩
  · rintro ⟨hrest, rfl, hdata⟩
    rw [hrest, List.take_left, List.drop_left, ← hdata]
    exact ⟨⟨rfl, rfl⟩, rfl⟩

theorem reads_readBytes {n : ℤ} {buf : List Byte} :
    Reads (readBytes n) s buf s' ↔
      s.rest = buf ++ s'.rest ∧ (buf.length : ℤ) = n ∧ s'.data = s.data := by
  unfold readBytes
  simp only [reads_bind, reads_lift, reads_throwIf, reads_pure]
  constructor
  · rintro ⟨_, _, ⟨hcheck, rfl⟩, x, _, hread, hlen, rfl, rfl⟩
    have hn : 0 ≤ n := by
      by_contra hneg
      simp [check, hneg] at hcheck
    have hlen' : x.length = n.toNat := by omega
    obtain ⟨hrest, -, hdata⟩ := reads_freadAll.mp ⟨hread, hlen'⟩
    exact ⟨hrest, not_not.mp hlen, hdata⟩
  · rintro ⟨hrest, rfl, hdata⟩
    obtain ⟨hread, -⟩ := reads_freadAll.mpr ⟨hrest, rfl, hdata⟩
    exact ⟨⟨⟩, s, ⟨by simp [check], rfl⟩, buf, s', hread, not_not_intro rfl, rfl, rfl⟩

def int32Bytes (x : Int32) : List Byte := beIntBytes 4 x.toInt

theorem toBitVec_toInt32 (order : ByteOrder) {bytes : List Byte} (h : bytes.length = 4) :
    (toInt32 order bytes).toBitVec.toNat = ofLeBytes bytes.reverse := by
  have hlt := ofLeBytes_lt bytes.reverse
  rw [List.length_reverse, h] at hlt
  rw [toInt32, order.swapToNetwork_load h]
  exact UInt32.toNat_ofNat_of_lt' hlt

theorem int32Bytes_toInt32 (order : ByteOrder) {bytes : List Byte} (h : bytes.length = 4) :
    int32Bytes (toInt32 order bytes) = bytes := by
  have hbytes := leBytes_toNat (n := 4) (toInt32 order bytes).toBitVec (by norm_num)
  rw [toBitVec_toInt32 order h, leBytes_ofLeBytes (by simpa using h), List.reverse_reverse]
    at hbytes
  exact hbytes.symm

theorem toInt32_int32Bytes (order : ByteOrder) (x : Int32) :
    toInt32 order (int32Bytes x) = x := by
  have hlen : (int32Bytes x).length = 4 := length_beIntBytes 4 x.toInt
  have hbytes := leBytes_toNat (n := 4) x.toBitVec (by norm_num)
  have hval := toBitVec_toInt32 order hlen
  have heq : int32Bytes x = (leBytes 4 x.toBitVec.toNat).reverse := hbytes.symm
  rw [heq, List.reverse_reverse, ofLeBytes_leBytes x.toBitVec.isLt, ← heq] at hval
  exact Int32.toBitVec_inj.mp (BitVec.eq_of_toNat_eq hval)

theorem reads_readInt32 {order : ByteOrder} {x : Int32} :
    Reads (readInt32 order) s x s' ↔ s.rest = int32Bytes x ++ s'.rest ∧ s'.data = s.data := by
  unfold readInt32
  simp only [reads_bind, reads_throwIf, reads_pure]
  constructor
  · rintro ⟨bytes, _, hread, hlen, rfl, rfl⟩
    obtain ⟨hrest, hlen, hdata⟩ := reads_freadAll.mp ⟨hread, not_not.mp hlen⟩
    rw [int32Bytes_toInt32 order hlen]
    exact ⟨hrest, hdata⟩
  · rintro ⟨hrest, hdata⟩
    have hlen : (int32Bytes x).length = 4 := length_beIntBytes 4 x.toInt
    obtain ⟨hread, -⟩ := reads_freadAll.mpr ⟨hrest, hlen, hdata⟩
    exact ⟨int32Bytes x, s', hread, not_not_intro hlen, toInt32_int32Bytes order x, rfl⟩

theorem reads_readUInt8 {x : Byte} :
    Reads readUInt8 s x s' ↔ s.rest = x :: s'.rest ∧ s'.data = s.data := by
  unfold readUInt8
  simp only [reads_bind, reads_throwIf, reads_pure]
  constructor
  · rintro ⟨bytes, _, hread, hlen, rfl, rfl⟩
    obtain ⟨hrest, hlen, hdata⟩ := reads_freadAll.mp ⟨hread, not_not.mp hlen⟩
    obtain ⟨y, rfl⟩ := List.length_eq_one_iff.mp hlen
    exact ⟨hrest, hdata⟩
  · rintro ⟨hrest, hdata⟩
    obtain ⟨hread, -⟩ := reads_freadAll.mpr ⟨hrest, List.length_singleton, hdata⟩
    exact ⟨[x], s', hread, not_not_intro rfl, rfl, rfl⟩

theorem reads_readMany {read : ZoneReader α} {bytes : α → List Byte}
    (hread : ∀ s x s', Reads read s x s' ↔ s.rest = bytes x ++ s'.rest ∧ s'.data = s.data)
    {n : ℕ} {xs : List α} :
    Reads (readMany read n) s xs s' ↔
      s.rest = xs.flatMap bytes ++ s'.rest ∧ xs.length = n ∧ s'.data = s.data := by
  induction n generalizing s s' xs with
  | zero =>
    rw [readMany, reads_pure]
    constructor
    · rintro ⟨rfl, rfl⟩
      exact ⟨rfl, rfl, rfl⟩
    · rintro ⟨hrest, hlen, hdata⟩
      obtain rfl := List.length_eq_zero_iff.mp hlen
      obtain ⟨rest, data⟩ := s
      obtain ⟨rest', data'⟩ := s'
      cases hrest
      cases hdata
      exact ⟨rfl, rfl⟩
  | succ n ih =>
    rw [readMany]
    simp only [reads_bind, hread, ih, reads_pure]
    constructor
    · rintro ⟨x, t, ⟨hx, hxd⟩, ys, u, ⟨hys, rfl, hysd⟩, rfl, rfl⟩
      refine ⟨?_, rfl, hysd.trans hxd⟩
      rw [hx, hys, List.flatMap_cons, List.append_assoc]
    · rintro ⟨hrest, hlen, hdata⟩
      obtain ⟨x, ys, rfl⟩ := List.exists_cons_of_length_eq_add_one hlen
      rw [List.flatMap_cons, List.append_assoc] at hrest
      exact ⟨x, ⟨ys.flatMap bytes ++ s'.rest, s.data⟩, ⟨hrest, rfl⟩, ys, s',
        ⟨rfl, Nat.succ.inj hlen, hdata⟩, rfl, rfl⟩

end ZoneReader

/-- A rule as the file has it. -/
structure ZoneRule where
  gmtoff : Int32
  isdst : Byte
  abbrind : Byte
  deriving DecidableEq

/-- The parts of a zone file, and what follows them. -/
structure ZoneImage where
  version : List Byte
  reserved : List Byte
  isgmtcnt : Int32
  isstdcnt : Int32
  leapcnt : Int32
  timecnt : Int32
  typecnt : Int32
  charcnt : Int32
  times : List Int32
  indices : List Byte
  rules : List ZoneRule
  chars : List Byte
  rest : List Byte

open ZoneReader

namespace ZoneRule

def bytes (r : ZoneRule) : List Byte := int32Bytes r.gmtoff ++ [r.isdst, r.abbrind]

def localtime (r : ZoneRule) : Localtime := ⟨r.gmtoff.toInt, r.isdst ≠ 0, r.abbrind.toNat⟩

end ZoneRule

namespace ZoneData

def transitionTo (data : ZoneData) (item : Int32 × Byte) : Transition :=
  ⟨item.1.toInt, item.1.toInt + (data.localtimes.getD item.2.toNat default).gmtOffset,
    item.2.toNat⟩

def addRules (data : ZoneData) (rules : List ZoneRule) : ZoneData :=
  { data with localtimes := data.localtimes ++ rules.map ZoneRule.localtime }

def addTransitions (data : ZoneData) (items : List (Int32 × Byte)) : ZoneData :=
  { data with transitions := data.transitions ++ items.map data.transitionTo }

theorem localtimeAt_byte (data : ZoneData) (localIdx : Byte) (line : ℕ) :
    data.localtimeAt localIdx.toNat line =
      if localIdx.toNat < data.localtimes.length then
        .ok (data.localtimes.getD localIdx.toNat default)
      else .error (.outOfBounds .time_zone_cc line) := by
  have hbyte : toSizeT localIdx.toNat = localIdx.toNat := by
    have hlt := localIdx.toNat_lt
    simp only [toSizeT]
    omega
  rw [localtimeAt, hbyte]
  split_ifs with h
  · rw [List.getElem?_eq_getElem h, List.getD_eq_getElem?_getD, List.getElem?_eq_getElem h]
    rfl
  · rw [List.getElem?_eq_none (not_lt.mp h)]

end ZoneData

namespace ZoneImage

def text (image : ZoneImage) : List Byte :=
  ascii ['T', 'Z', 'i', 'f'] ++ (image.version ++ (image.reserved ++
    (int32Bytes image.isgmtcnt ++ (int32Bytes image.isstdcnt ++ (int32Bytes image.leapcnt ++
    (int32Bytes image.timecnt ++ (int32Bytes image.typecnt ++ (int32Bytes image.charcnt ++
    (image.times.flatMap int32Bytes ++ (image.indices ++
    (image.rules.flatMap ZoneRule.bytes ++ (image.chars ++ image.rest))))))))))))

/-- The parts are as long as the counts say. -/
structure Complete (image : ZoneImage) : Prop where
  version_length : image.version.length = 1
  reserved_length : image.reserved.length = 15
  timecnt_eq : image.timecnt.toInt = image.times.length
  indices_length : image.indices.length = image.times.length
  rules_length : image.rules.length = image.typecnt.toInt.toNat
  charcnt_eq : image.charcnt.toInt = image.chars.length

def Indexed (image : ZoneImage) : Prop :=
  ∀ item ∈ image.times.zip image.indices, item.2.toNat < image.rules.length

def data (image : ZoneImage) : ZoneData :=
  { (TimeZone.emptyData.addRules image.rules).addTransitions (image.times.zip image.indices) with
    abbreviation := image.chars.map fun c => Char.ofNat c.toNat }

end ZoneImage

namespace ZoneReader

variable {s s' : ZoneReading} {u : Unit} {order : ByteOrder}

theorem reads_readLocaltimes {n : ℕ} :
    Reads (readLocaltimes order n) s u s' ↔ ∃ rules : List ZoneRule, rules.length = n ∧
      s.rest = rules.flatMap ZoneRule.bytes ++ s'.rest ∧ s'.data = s.data.addRules rules := by
  induction n generalizing s with
  | zero =>
    rw [readLocaltimes, reads_pure]
    constructor
    · rintro ⟨-, rfl⟩
      exact ⟨[], rfl, rfl, by simp [ZoneData.addRules]⟩
    · rintro ⟨rules, hlen, hrest, hdata⟩
      obtain rfl := List.length_eq_zero_iff.mp hlen
      obtain ⟨rest, data⟩ := s
      obtain ⟨rest', data'⟩ := s'
      cases hrest
      simp only [ZoneData.addRules, List.map_nil, List.append_nil] at hdata
      cases hdata
      exact ⟨rfl, rfl⟩
  | succ n ih =>
    rw [readLocaltimes]
    simp only [reads_bind, reads_readInt32, reads_readUInt8, reads_modify, ih]
    constructor
    · rintro ⟨gmtoff, t, ⟨ht, htd⟩, isdst, v, ⟨hv, hvd⟩, abbrind, w, ⟨hw, hwd⟩, -, _, rfl, rules,
        hlen, hrest, hdata⟩
      refine ⟨⟨gmtoff, isdst, abbrind⟩ :: rules, ?_, ?_, ?_⟩
      · rw [List.length_cons, hlen]
      · dsimp only at hrest
        rw [ht, hv, hw, hrest, List.flatMap_cons, ZoneRule.bytes]
        simp
      · rw [hdata]
        simp [ZoneData.addRules, ZoneRule.localtime, hwd, hvd, htd]
    · rintro ⟨rules, hlen, hrest, hdata⟩
      obtain ⟨⟨gmtoff, isdst, abbrind⟩, rules, rfl⟩ := List.exists_cons_of_length_eq_add_one hlen
      rw [List.flatMap_cons, ZoneRule.bytes, List.append_assoc, List.append_assoc] at hrest
      refine ⟨gmtoff, ⟨_, s.data⟩, ⟨hrest, rfl⟩, isdst, ⟨_, s.data⟩, ⟨rfl, rfl⟩, abbrind,
        ⟨_, s.data⟩, ⟨rfl, rfl⟩, ⟨⟩, _, rfl, rules, Nat.succ.inj hlen, rfl, ?_⟩
      rw [hdata]
      simp [ZoneData.addRules, ZoneRule.localtime]

theorem reads_addTransitions {items : List (Int32 × Byte)} :
    Reads (addTransitions items) s u s' ↔
      (∀ item ∈ items, item.2.toNat < s.data.localtimes.length) ∧
        s' = { s with data := s.data.addTransitions items } := by
  induction items generalizing s with
  | nil =>
    rw [addTransitions, reads_pure]
    simp [ZoneData.addTransitions, eq_comm]
  | cons item items ih =>
    obtain ⟨gmttime, localIdx⟩ := item
    rw [addTransitions]
    simp only [reads_bind, reads_get, reads_lift, reads_modify, ih, ZoneData.localtimeAt_byte]
    constructor
    · rintro ⟨_, _, ⟨rfl, rfl⟩, found, _, ⟨hfound, rfl⟩, -, _, rfl, hitems, rfl⟩
      split_ifs at hfound with hlt
      cases hfound
      refine ⟨List.forall_mem_cons.mpr ⟨hlt, hitems⟩, ?_⟩
      simp [ZoneData.addTransitions, ZoneData.transitionTo]
    · rintro ⟨hitems, rfl⟩
      obtain ⟨hlt, hitems⟩ := List.forall_mem_cons.mp hitems
      refine ⟨s, s, ⟨rfl, rfl⟩, _, s, ⟨if_pos hlt, rfl⟩, ⟨⟩, _, rfl, hitems, ?_⟩
      simp [ZoneData.addTransitions, ZoneData.transitionTo]

theorem reads_indices {n : ℕ} {xs : List Byte} :
    Reads (readMany readUInt8 n) s xs s' ↔
      s.rest = xs ++ s'.rest ∧ xs.length = n ∧ s'.data = s.data := by
  have hread : ∀ s x s', Reads readUInt8 s x s' ↔ s.rest = [x] ++ s'.rest ∧ s'.data = s.data :=
    fun _ _ _ => reads_readUInt8
  rw [reads_readMany hread, List.flatMap_singleton']

/-- Nothing is thrown exactly when the file begins with a complete image whose indices are in
range. -/
theorem reads_readZone {bytes : List Byte} :
    Reads (readZone order) ⟨bytes, TimeZone.emptyData⟩ u s' ↔
      ∃ image : ZoneImage, image.Complete ∧ image.Indexed ∧ bytes = image.text ∧
        s' = ⟨image.rest, image.data⟩ := by
  unfold readZone
  simp only [reads_bind, reads_throwIf, reads_readBytes, reads_readInt32,
    reads_readMany (fun _ _ _ => reads_readInt32), reads_indices, reads_readLocaltimes,
    reads_addTransitions, reads_modify]
  constructor
  · rintro ⟨head, s₁, ⟨h₁, -, d₁⟩, hhead, version, s₂, ⟨h₂, hversion, d₂⟩, reserved, s₃,
      ⟨h₃, hreserved, d₃⟩, isgmtcnt, s₄, ⟨h₄, d₄⟩, isstdcnt, s₅, ⟨h₅, d₅⟩, leapcnt, s₆, ⟨h₆, d₆⟩,
      timecnt, s₇, ⟨h₇, d₇⟩, typecnt, s₈, ⟨h₈, d₈⟩, charcnt, s₉, ⟨h₉, d₉⟩, htimecnt, times, t₁,
      ⟨g₁, htimes, e₁⟩, indices, t₂, ⟨g₂, hindices, e₂⟩, -, t₃, ⟨rules, hrules, g₃, e₃⟩, -, _,
      ⟨hindexed, rfl⟩, chars, t₄, ⟨g₄, hchars, e₄⟩, rfl⟩
    rw [e₂, e₁, d₉, d₈, d₇, d₆, d₅, d₄, d₃, d₂, d₁] at e₃
    have hnonneg : 0 ≤ timecnt.toInt := by
      rw [Int32.lt_iff_toInt_lt] at htimecnt
      exact not_lt.mp htimecnt
    refine ⟨⟨version, reserved, isgmtcnt, isstdcnt, leapcnt, timecnt, typecnt, charcnt, times,
      indices, rules, chars, t₄.rest⟩, ⟨?_, ?_, ?_, ?_, hrules, hchars.symm⟩, ?_, ?_, ?_⟩
    · exact Int.ofNat_inj.mp hversion
    · exact Int.ofNat_inj.mp hreserved
    · rw [htimes, Int.toNat_of_nonneg hnonneg]
    · exact hindices.trans htimes.symm
    · intro item hitem
      have hlt := hindexed item hitem
      rwa [e₃, ZoneData.addRules, List.length_append, List.length_map, TimeZone.emptyData,
        List.length_nil, Nat.zero_add] at hlt
    · rw [h₁, not_not.mp hhead, h₂, h₃, h₄, h₅, h₆, h₇, h₈, h₉, g₁, g₂, g₃, g₄]
      rfl
    · rw [e₄, e₃]
      rfl
  · rintro ⟨image, hcomplete, hindexed, rfl, rfl⟩
    have hnonneg : ¬ image.timecnt < 0 := by
      rw [Int32.lt_iff_toInt_lt, hcomplete.timecnt_eq]
      exact not_lt.mpr (Int.natCast_nonneg _)
    have htimes : image.times.length = image.timecnt.toInt.toNat := by
      rw [hcomplete.timecnt_eq, Int.toNat_natCast]
    refine ⟨_, ⟨_, _⟩, ⟨rfl, rfl, rfl⟩, not_not_intro rfl, _, ⟨_, _⟩,
      ⟨rfl, congrArg Nat.cast hcomplete.version_length, rfl⟩, _, ⟨_, _⟩,
      ⟨rfl, congrArg Nat.cast hcomplete.reserved_length, rfl⟩, _, ⟨_, _⟩, ⟨rfl, rfl⟩, _, ⟨_, _⟩,
      ⟨rfl, rfl⟩, _, ⟨_, _⟩, ⟨rfl, rfl⟩, _, ⟨_, _⟩, ⟨rfl, rfl⟩, _, ⟨_, _⟩, ⟨rfl, rfl⟩, _, ⟨_, _⟩,
      ⟨rfl, rfl⟩, hnonneg, _, ⟨_, _⟩, ⟨rfl, htimes, rfl⟩, _, ⟨_, _⟩,
      ⟨rfl, hcomplete.indices_length.trans htimes, rfl⟩, ⟨⟩, ⟨_, _⟩,
      ⟨image.rules, hcomplete.rules_length, rfl, rfl⟩, ⟨⟩, ⟨_, _⟩, ⟨?_, rfl⟩, _, ⟨_, _⟩,
      ⟨rfl, hcomplete.charcnt_eq.symm, rfl⟩, rfl⟩
    intro item hitem
    change item.2.toNat < ([] ++ image.rules.map ZoneRule.localtime).length
    rw [List.nil_append, List.length_map]
    exact hindexed item hitem

end ZoneReader

end Dwater
