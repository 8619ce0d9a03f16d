import CryptPilot.Data.Arrivals
import CryptPilot.Data.Except

/-!
# Recording what is done to a block device

`fs/block/blktrace/mod.rs`. The kernel writes an event for each operation on a device to a relay
channel: a header of fixed size, and as many bytes as it says. A task reads them, and tries again
after a while when there is nothing to be read.

A header is read with `read_exact`, and so is what comes behind it. If an end of file is seen within
a header, the part of it that was there is lost, and the next header is read from its middle. If it
is seen behind the header, the task fails. `readerTask_iff` says that the task delivers the events
exactly if each end of file it sees is between two of them.
-/

namespace CryptPilot.Core.Blktrace

open CryptPilot.Data CryptPilot.Data.Arrivals

/-! ## Events -/

/-- `blk_io_trace`. -/
structure BlkIoTrace where
  magic : Nat
  sequence : Nat
  time : Nat
  sector : Nat
  bytes : Nat
  action : Nat
  pid : Nat
  device : Nat
  cpu : Nat
  error : Nat
  pduLen : Nat
  deriving DecidableEq

structure BlkTraceEvent where
  event : BlkIoTrace
  data : List UInt8
  deriving DecidableEq

/-- `size_of::<blk_io_trace>()`. -/
def headerSize : Nat := 48

/-- `BLK_IO_TRACE_MAGIC + BLK_IO_TRACE_VERSION`. -/
def magicNumber : Nat := 0x65617400 + 0x07

def littleEndian : List UInt8 → Nat
  | [] => 0
  | byte :: bytes => byte.toNat + 256 * littleEndian bytes

/-- The fields of a header, where the C structure has them. -/
def BlkIoTrace.ofBytes (header : List UInt8) : BlkIoTrace :=
  let field (offset size : Nat) : Nat := littleEndian ((header.drop offset).take size)
  { magic := field 0 4
    sequence := field 4 4
    time := field 8 8
    sector := field 16 8
    bytes := field 24 4
    action := field 28 4
    pid := field 32 4
    device := field 36 4
    cpu := field 40 4
    error := field 44 2
    pduLen := field 46 2 }

namespace BlkTraceEvent

/-- Whether an event is of a category, `1 << n` in `blktrace_cat`. -/
def hasCategory (self : BlkTraceEvent) (category : Nat) : Bool :=
  (self.event.action >>> 16) &&& category = category

/-- `BLK_TC_READ`. -/
def isRead (self : BlkTraceEvent) : Bool := self.hasCategory (1 <<< 0)

/-- `BLK_TC_WRITE`. -/
def isWrite (self : BlkTraceEvent) : Bool := self.hasCategory (1 <<< 1)

/-- `BLK_TC_DISCARD`. -/
def isDiscard (self : BlkTraceEvent) : Bool := self.hasCategory (1 <<< 13)

end BlkTraceEvent

/-! ## The task that reads a channel -/

/-- What the task does next. -/
inductive Next where
  | event (header : List UInt8) (rest : List (List UInt8))
  | retry (rest : List (List UInt8))
  | stop

/-- Reads a header. The task is cancelled when all but the last `late` answers of the channel have
been given; then it tries once more, and stops. -/
def nextHeader (late : Nat) (channel : List (List UInt8)) : Next :=
  match readExact headerSize channel with
  | (some header, rest) => .event header rest
  | (none, rest) =>
    if rest.length ≤ late then
      match readExact headerSize rest with
      | (some header, rest) => .event header rest
      | (none, _) => .stop
    else .retry rest

section
variable {late : Nat} {channel rest : List (List UInt8)} {header : List UInt8}

theorem ne_nil_of_readExact {n : Nat} {got : List UInt8} (hn : n ≠ 0)
    (h : readExact n channel = (some got, rest)) : channel ≠ [] := by
  rintro rfl
  simp [readExact, hn] at h

/-- A header that is read comes from the channel, behind what may have been lost. -/
theorem nextHeader_eq_event (h : nextHeader late channel = .event header rest) :
    (∃ lost, lost ++ header ++ rest.flatten = channel.flatten) ∧ header.length = headerSize ∧
      size rest < size channel := by
  have hsize : headerSize ≠ 0 := by decide
  rw [nextHeader] at h
  split at h
  · rename_i hread
    cases h
    obtain ⟨hlen, happend⟩ := append_flatten_of_readExact hread
    have hlt := size_readExact_lt hsize (ne_nil_of_readExact hsize hread)
    rw [hread] at hlt
    exact ⟨⟨[], happend⟩, hlen, hlt⟩
  · rename_i again hread
    split_ifs at h
    split at h
    · rename_i hread'
      cases h
      obtain ⟨lost, -, hlost⟩ := exists_append_flatten_of_readExact hread
      obtain ⟨hlen, happend⟩ := append_flatten_of_readExact hread'
      have hle := size_readExact_le headerSize channel
      have hlt := size_readExact_lt hsize (ne_nil_of_readExact hsize hread')
      rw [hread] at hle
      rw [hread'] at hlt
      refine ⟨⟨lost, by rw [List.append_assoc, happend, hlost]⟩, hlen, ?_⟩
      exact Nat.lt_of_lt_of_le hlt hle
    · cases h

theorem nextHeader_eq_retry (h : nextHeader late channel = .retry rest) :
    readExact headerSize channel = (none, rest) ∧ size rest < size channel := by
  rw [nextHeader] at h
  split at h
  · cases h
  · rename_i again hread
    split_ifs at h with hlate
    · split at h <;> cases h
    · cases h
      refine ⟨hread, ?_⟩
      have hne : channel ≠ [] := by
        rintro rfl
        cases hread
        exact hlate (Nat.zero_le late)
      have hlt := size_readExact_lt (n := headerSize) (by decide) hne
      rwa [hread] at hlt

end

/-- A reader task of `BlkTrace::monitor`, with the events that it sends. -/
def readerTask (late : Nat) (channel : List (List UInt8)) :
    Except String (List BlkTraceEvent) :=
  match _hnext : nextHeader late channel with
  | .stop => .ok []
  | .retry rest => readerTask late rest
  | .event header rest =>
    let blkEvent := BlkIoTrace.ofBytes header
    if blkEvent.magic ≠ magicNumber then .error "blktrace event magic number mismatch"
    else
      match _hdata : readExact blkEvent.pduLen rest with
      | (none, _) => .error "Failed to read trace event data from trace file: early eof"
      | (some data, behind) => (readerTask late behind).map (⟨blkEvent, data⟩ :: ·)
termination_by size channel
decreasing_by
  · exact (nextHeader_eq_retry _hnext).2
  · have hle := size_readExact_le blkEvent.pduLen rest
    rw [_hdata] at hle
    exact Nat.lt_of_le_of_lt hle (nextHeader_eq_event _hnext).2.2

section
variable {late : Nat} {channel rest behind : List (List UInt8)} {header data : List UInt8}
  {events : List BlkTraceEvent}

theorem readerTask_of_stop (h : nextHeader late channel = .stop) :
    readerTask late channel = .ok [] := by
  rw [readerTask]
  split <;> simp_all

theorem readerTask_of_retry (h : nextHeader late channel = .retry rest) :
    readerTask late channel = readerTask late rest := by
  rw [readerTask]
  split <;> simp_all

theorem readerTask_of_event (h : nextHeader late channel = .event header rest)
    (hmagic : (BlkIoTrace.ofBytes header).magic = magicNumber)
    (hdata : readExact (BlkIoTrace.ofBytes header).pduLen rest = (some data, behind)) :
    readerTask late channel =
      (readerTask late behind).map (⟨BlkIoTrace.ofBytes header, data⟩ :: ·) := by
  rw [readerTask]
  split
  · simp_all
  · simp_all
  · rename_i header' rest' hnext
    rw [h] at hnext
    cases hnext
    simp only [hmagic, ne_eq, not_true_eq_false, if_false]
    split
    · simp_all
    · rename_i hdata'
      rw [hdata] at hdata'
      cases hdata'
      rfl

/-- What a task that does not fail can have done. -/
theorem readerTask_eq_ok (h : readerTask late channel = .ok events) :
    (nextHeader late channel = .stop ∧ events = []) ∨
    (∃ rest, nextHeader late channel = .retry rest ∧ readerTask late rest = .ok events) ∨
    ∃ header rest data behind events',
      nextHeader late channel = .event header rest ∧
      readExact (BlkIoTrace.ofBytes header).pduLen rest = (some data, behind) ∧
      readerTask late behind = .ok events' ∧
      events = ⟨BlkIoTrace.ofBytes header, data⟩ :: events' := by
  rw [readerTask] at h
  split at h
  · rename_i hnext
    exact .inl ⟨hnext, (Except.ok.inj h).symm⟩
  · rename_i rest hnext
    exact .inr (.inl ⟨rest, hnext, h⟩)
  · rename_i header rest hnext
    dsimp only at h
    split_ifs at h
    split at h
    · cases h
    · rename_i data behind hdata
      obtain ⟨events', hrest, rfl⟩ := map_eq_ok h
      exact .inr (.inr ⟨header, rest, data, behind, events', hnext, hdata, hrest, rfl⟩)

/-- The number of bytes an event has in the channel. -/
def BlkTraceEvent.size (self : BlkTraceEvent) : Nat := headerSize + self.data.length

/-- **No byte is in two events.** -/
theorem sum_size_le (h : readerTask late channel = .ok events) :
    (events.map BlkTraceEvent.size).sum ≤ channel.flatten.length := by
  induction hsize : size channel using Nat.strong_induction_on generalizing channel events with
  | _ n ih =>
    subst hsize
    rcases readerTask_eq_ok h with ⟨-, rfl⟩ | ⟨rest, hnext, hok⟩ |
      ⟨header, rest, data, behind, events, hnext, hdata, hok, rfl⟩
    · exact Nat.zero_le _
    · obtain ⟨hread, hlt⟩ := nextHeader_eq_retry hnext
      obtain ⟨lost, -, hlost⟩ := exists_append_flatten_of_readExact hread
      have hle := ih _ hlt hok rfl
      rw [← hlost, List.length_append]
      omega
    · obtain ⟨⟨lost, hlost⟩, hheader, hlt⟩ := nextHeader_eq_event hnext
      obtain ⟨-, happend⟩ := append_flatten_of_readExact hdata
      have hsize := size_readExact_le (BlkIoTrace.ofBytes header).pduLen rest
      rw [hdata] at hsize
      have hle := ih _ (Nat.lt_of_le_of_lt hsize hlt) hok rfl
      rw [← hlost, ← happend]
      simp only [List.map_cons, List.sum_cons, List.length_append, BlkTraceEvent.size, hheader]
      omega

/-- What is lost at the first gap is in no event. -/
theorem sum_size_le_of_none (hnone : readExact headerSize channel = (none, rest))
    (h : readerTask late channel = .ok events) :
    (events.map BlkTraceEvent.size).sum ≤ rest.flatten.length := by
  rcases readerTask_eq_ok h with ⟨-, rfl⟩ | ⟨rest', hnext, hok⟩ |
    ⟨header, rest', data, behind, events, hnext, hdata, hok, rfl⟩
  · exact Nat.zero_le _
  · obtain ⟨hread, -⟩ := nextHeader_eq_retry hnext
    rw [hnone] at hread
    cases hread
    exact sum_size_le hok
  · have hagain : readExact headerSize rest = (some header, rest') := by
      rw [nextHeader, hnone] at hnext
      dsimp only at hnext
      split_ifs at hnext
      split at hnext
      · rename_i hread
        cases hnext
        exact hread
      · cases hnext
    obtain ⟨hheader, hrest⟩ := append_flatten_of_readExact hagain
    obtain ⟨-, happend⟩ := append_flatten_of_readExact hdata
    have hle := sum_size_le hok
    rw [← hrest, ← happend]
    simp only [List.map_cons, List.sum_cons, List.length_append, BlkTraceEvent.size, hheader]
    omega

end

/-! ## What the kernel writes -/

/-- An event as it is in the channel. -/
structure TraceRecord where
  header : List UInt8
  data : List UInt8
  length_header : header.length = headerSize
  magic_eq : (BlkIoTrace.ofBytes header).magic = magicNumber
  length_data : data.length = (BlkIoTrace.ofBytes header).pduLen

namespace TraceRecord

def bytes (self : TraceRecord) : List UInt8 := self.header ++ self.data

def event (self : TraceRecord) : BlkTraceEvent := ⟨.ofBytes self.header, self.data⟩

theorem length_bytes (self : TraceRecord) : self.bytes.length = self.event.size := by
  rw [bytes, List.length_append, self.length_header]
  rfl

end TraceRecord

def stream (records : List TraceRecord) : List UInt8 := records.flatMap TraceRecord.bytes

/-- A position in the stream between two records. -/
def IsBoundary (records : List TraceRecord) (position : Nat) : Prop :=
  ∃ before after, records = before ++ after ∧ position = (stream before).length

/-- After the task was cancelled, an end of file is the end. -/
def Settled (late : Nat) (channel : List (List UInt8)) : Prop :=
  ∀ before after, channel = before ++ [] :: after → after.length < late → after.flatten = []

section
variable {records : List TraceRecord} {record : TraceRecord} {late position : Nat}
  {channel : List (List UInt8)}

theorem isBoundary_zero (records : List TraceRecord) : IsBoundary records 0 :=
  ⟨[], records, rfl, rfl⟩

theorem isBoundary_cons_iff (hpos : position ≠ 0) :
    IsBoundary (record :: records) position ↔
      ∃ position', position = record.bytes.length + position' ∧ IsBoundary records position' := by
  constructor
  · rintro ⟨before, after, hsplit, rfl⟩
    cases before with
    | nil => exact absurd rfl hpos
    | cons first before =>
      obtain ⟨rfl, rfl⟩ := List.cons.inj hsplit
      exact ⟨(stream before).length, by simp [stream], before, after, rfl, rfl⟩
  · rintro ⟨_, rfl, before, after, rfl, rfl⟩
    exact ⟨record :: before, after, rfl, by simp [stream]⟩

theorem Settled.readExact (h : Settled late channel) (n : Nat) :
    Settled late (Arrivals.readExact n channel).2 := by
  intro before after hrest hlate
  obtain ⟨before', hchannel⟩ := exists_append_of_readExact hrest
  exact h before' after hchannel hlate

/-- What happens after a header was read, given what happens after the whole record. -/
theorem readerTask_record {rest : List (List UInt8)}
    (hnext : nextHeader late channel = .event record.header rest)
    (hrest : rest.flatten = record.data ++ stream records) (hsettled : Settled late rest)
    (ih : ∀ behind, size behind ≤ size rest → behind.flatten = stream records →
      Settled late behind → (readerTask late behind = .ok (records.map TraceRecord.event) ↔
        ∀ gap ∈ gaps behind, IsBoundary records gap)) :
    readerTask late channel = .ok ((record :: records).map TraceRecord.event) ↔
      ∀ gap ∈ gaps rest, IsBoundary (record :: records) (headerSize + gap) := by
  have hbytes (gap : Nat) : IsBoundary (record :: records) (headerSize + gap) ↔
      ∃ gap', gap = record.data.length + gap' ∧ IsBoundary records gap' := by
    rw [isBoundary_cons_iff (by simp [headerSize])]
    simp only [record.length_bytes, BlkTraceEvent.size, Nat.add_assoc, Nat.add_left_cancel_iff]
    rfl
  simp only [hbytes]
  by_cases hall : ∀ gap ∈ gaps rest, record.data.length ≤ gap
  · have hlen : record.data.length ≤ rest.flatten.length := by simp [hrest]
    obtain ⟨behind, hread, hbehind, hgaps⟩ := readExact_of_forall_le hlen hall
    rw [hrest, List.take_left, record.length_data] at hread
    rw [hrest, List.drop_left] at hbehind
    have hsize := size_readExact_le (BlkIoTrace.ofBytes record.header).pduLen rest
    have hsettled' := hsettled.readExact (BlkIoTrace.ofBytes record.header).pduLen
    rw [hread] at hsize hsettled'
    rw [readerTask_of_event hnext record.magic_eq hread, hgaps, List.forall_mem_map]
    have hmap : (readerTask late behind).map (⟨.ofBytes record.header, record.data⟩ :: ·) =
          .ok ((record :: records).map TraceRecord.event) ↔
        readerTask late behind = .ok (records.map TraceRecord.event) := by
      constructor
      · intro h
        obtain ⟨events, hevents, h⟩ := map_eq_ok h
        rw [hevents, (List.cons.inj h).2]
      · intro h
        rw [h]
        rfl
    rw [hmap, ih behind hsize hbehind hsettled']
    simp
  · -- within the data: the task fails
    push Not at hall
    obtain ⟨gap, hgap, hlt⟩ := hall
    have hnone : (readExact (BlkIoTrace.ofBytes record.header).pduLen rest).1 = none :=
      readExact_of_mem_gaps hgap (by rwa [record.length_data] at hlt)
    refine iff_of_false (fun hok => ?_) fun h => ?_
    · rcases readerTask_eq_ok hok with ⟨hstop, -⟩ | ⟨_, hretry, -⟩ |
        ⟨_, _, _, _, _, hevent, hdata, -⟩
      · rw [hnext] at hstop
        cases hstop
      · rw [hnext] at hretry
        cases hretry
      · rw [hnext] at hevent
        cases hevent
        rw [hdata] at hnone
        cases hnone
    · obtain ⟨gap', rfl, -⟩ := h gap hgap
      omega

/-- A header is read where there is no gap before its end. -/
theorem readExact_header (hstream : channel.flatten = stream (record :: records))
    (hgaps : ∀ gap ∈ gaps channel, headerSize ≤ gap) :
    ∃ rest, readExact headerSize channel = (some record.header, rest) ∧
      rest.flatten = record.data ++ stream records ∧
      gaps channel = (gaps rest).map (headerSize + ·) := by
  have hsplit : channel.flatten = record.header ++ (record.data ++ stream records) := by
    rw [hstream, stream, List.flatMap_cons, TraceRecord.bytes, List.append_assoc]
    rfl
  have hlen : headerSize ≤ channel.flatten.length := by
    rw [hsplit, List.length_append, record.length_header]
    omega
  obtain ⟨rest, hread, hrest, heq⟩ := readExact_of_forall_le hlen hgaps
  rw [hsplit, ← record.length_header, List.take_left] at hread
  rw [hsplit, ← record.length_header, List.drop_left] at hrest
  exact ⟨rest, by rw [← record.length_header]; exact hread, hrest, heq⟩

theorem stream_eq_nil (h : stream records = []) : records = [] := by
  cases records with
  | nil => rfl
  | cons record records =>
    have hlen := congrArg List.length h
    rw [stream, List.flatMap_cons, List.length_append, record.length_bytes,
      BlkTraceEvent.size] at hlen
    simp [headerSize] at hlen

theorem sum_size_events (records : List TraceRecord) :
    ((records.map TraceRecord.event).map BlkTraceEvent.size).sum = (stream records).length := by
  rw [stream, List.length_flatMap, List.map_map]
  congr 2
  funext record
  exact record.length_bytes.symm

/-- An end of file before a record: the task tries again, or sees the rest of the stream. -/
theorem readerTask_empty (hstream : channel.flatten = stream records)
    (hsettled : Settled late ([] :: channel))
    (ih : ∀ records' channel', size channel' ≤ size channel → channel'.flatten = stream records' →
      Settled late channel' →
      (readerTask late channel' = .ok (records'.map TraceRecord.event) ↔
        ∀ gap ∈ gaps channel', IsBoundary records' gap)) :
    readerTask late ([] :: channel) = .ok (records.map TraceRecord.event) ↔
      ∀ gap ∈ gaps channel, IsBoundary records gap := by
  have hread : readExact headerSize ([] :: channel) = (none, channel) :=
    readExact_empty (by decide) channel
  have hsettled' : Settled late channel := by
    have h := hsettled.readExact headerSize
    rwa [hread] at h
  by_cases hlate : channel.length ≤ late
  · -- from now on, an end of file is the end of the stream
    have hend : ∀ gap ∈ gaps channel, gap = channel.flatten.length := by
      intro gap hgap
      obtain ⟨before, after, rfl, rfl⟩ := exists_of_mem_gaps hgap
      have hafter : after.flatten = [] := by
        refine hsettled' before after rfl (Nat.lt_of_lt_of_le ?_ hlate)
        rw [List.length_append, List.length_cons]
        omega
      rw [List.flatten_append, List.flatten_cons, hafter, List.append_nil, List.append_nil]
    cases records with
    | nil =>
      have hnil : channel.flatten = [] := hstream
      have hstop : nextHeader late ([] :: channel) = .stop := by
        rw [nextHeader, hread]
        dsimp only
        rw [if_pos hlate]
        split
        · rename_i hagain
          obtain ⟨hlen, happend⟩ := append_flatten_of_readExact hagain
          rw [hnil, List.append_eq_nil_iff] at happend
          rw [happend.1] at hlen
          cases hlen
        · rfl
      rw [readerTask_of_stop hstop]
      refine iff_of_true rfl fun gap hgap => ?_
      rw [hend gap hgap, hnil]
      exact isBoundary_zero []
    | cons record records =>
      have hge : ∀ gap ∈ gaps channel, headerSize ≤ gap := by
        intro gap hgap
        rw [hend gap hgap, hstream, stream, List.flatMap_cons, List.length_append,
          record.length_bytes, BlkTraceEvent.size]
        omega
      obtain ⟨rest, hagain, hrest, hgaps⟩ := readExact_header hstream hge
      have hnext : nextHeader late ([] :: channel) = .event record.header rest := by
        rw [nextHeader, hread]
        dsimp only
        rw [if_pos hlate, hagain]
      have hsize := size_readExact_le headerSize channel
      have hsettledRest := hsettled'.readExact headerSize
      rw [hagain] at hsize hsettledRest
      rw [readerTask_record hnext hrest hsettledRest, hgaps, List.forall_mem_map]
      exact fun behind hle => ih records behind (hle.trans hsize)
  · have hnext : nextHeader late ([] :: channel) = .retry channel := by
      rw [nextHeader, hread]
      exact if_neg hlate
    rw [readerTask_of_retry hnext]
    exact ih records channel le_rfl hstream hsettled'

theorem pos_of_mem_gaps {piece : List UInt8} (hpiece : piece ≠ [])
    (hposition : position ∈ gaps (piece :: channel)) : position ≠ 0 := by
  rw [gaps_cons hpiece] at hposition
  obtain ⟨gap, -, rfl⟩ := List.mem_map.mp hposition
  have := List.length_pos_of_ne_nil hpiece
  omega

/-- An end of file within a header: a part of it is lost, so not all records are delivered. -/
theorem readerTask_ne_of_gap {piece : List UInt8} (hpiece : piece ≠ [])
    (hstream : (piece :: channel).flatten = stream records)
    (hposition : position ∈ gaps (piece :: channel)) (hlt : position < headerSize) :
    readerTask late (piece :: channel) ≠ .ok (records.map TraceRecord.event) := by
  intro hok
  have hnone : readExact headerSize (piece :: channel) =
      (none, (readExact headerSize (piece :: channel)).2) :=
    Prod.ext (readExact_of_mem_gaps hposition hlt) rfl
  have hle := sum_size_le_of_none hnone hok
  have hlost := length_flatten_lt_of_readExact hpiece hnone
  rw [sum_size_events, ← hstream] at hle
  omega

end

/-- **The events are delivered** exactly if the channel is never found empty within one. -/
theorem readerTask_iff {records : List TraceRecord} {channel : List (List UInt8)} {late : Nat}
    (hstream : channel.flatten = stream records) (hsettled : Settled late channel) :
    readerTask late channel = .ok (records.map TraceRecord.event) ↔
      ∀ gap ∈ gaps channel, IsBoundary records gap := by
  induction hsize : size channel using Nat.strong_induction_on generalizing channel records with
  | _ n ih =>
    subst hsize
    cases channel with
    | nil =>
      obtain rfl : records = [] := stream_eq_nil hstream.symm
      have hstop : nextHeader late [] = .stop := by simp [nextHeader, readExact, headerSize]
      rw [readerTask_of_stop hstop]
      exact iff_of_true rfl fun gap hgap => absurd hgap List.not_mem_nil
    | cons piece channel =>
      by_cases hpiece : piece = []
      · subst hpiece
        rw [readerTask_empty (show channel.flatten = stream records from hstream) hsettled,
          gaps_empty, List.forall_mem_cons]
        · exact (and_iff_right (isBoundary_zero records)).symm
        · intro records' channel' hle hstream' hsettled'
          refine ih _ (Nat.lt_of_le_of_lt hle ?_) hstream' hsettled' rfl
          rw [size_cons]
          omega
      · obtain ⟨record, records, rfl⟩ : ∃ record rest, records = record :: rest := by
          refine List.exists_cons_of_ne_nil fun hnil => hpiece ?_
          rw [hnil, List.flatten_cons] at hstream
          exact (List.append_eq_nil_iff.mp hstream).1
        by_cases hall : ∀ gap ∈ gaps (piece :: channel), headerSize ≤ gap
        · obtain ⟨rest, hread, hrest, hgaps⟩ := readExact_header hstream hall
          have hnext : nextHeader late (piece :: channel) = .event record.header rest := by
            rw [nextHeader, hread]
          have hlt := (nextHeader_eq_event hnext).2.2
          have hsettledRest := hsettled.readExact headerSize
          rw [hread] at hsettledRest
          rw [readerTask_record hnext hrest hsettledRest, hgaps, List.forall_mem_map]
          exact fun behind hle hbehind hsettled' =>
            ih _ (Nat.lt_of_le_of_lt hle hlt) hbehind hsettled' rfl
        · push Not at hall
          obtain ⟨gap, hgap, hlt⟩ := hall
          have hpos : gap ≠ 0 := pos_of_mem_gaps hpiece hgap
          refine iff_of_false (readerTask_ne_of_gap hpiece hstream hgap hlt) fun h => ?_
          obtain ⟨gap', rfl, -⟩ := (isBoundary_cons_iff hpos).mp (h gap hgap)
          rw [record.length_bytes, BlkTraceEvent.size] at hlt
          omega

/-- A record of an operation with nothing behind its header. -/
def plainRecord : TraceRecord where
  header := [0x07, 0x74, 0x61, 0x65] ++ List.replicate 44 0
  data := []
  length_header := rfl
  magic_eq := by decide
  length_data := by decide

theorem readerTask_iff_between :
    readerTask 0 [[], plainRecord.bytes, [], plainRecord.bytes.take 10, plainRecord.bytes.drop 10] =
      .ok [plainRecord.event, plainRecord.event] := by
  refine (@readerTask_iff [plainRecord, plainRecord] _ 0 (by decide) ?_).mpr ?_
  · intro before after _ hlate
    cases hlate
  · have hgaps : gaps [[], plainRecord.bytes, [], plainRecord.bytes.take 10,
        plainRecord.bytes.drop 10] = [0, 48] := by decide
    rw [hgaps, List.forall_mem_cons, List.forall_mem_singleton]
    exact ⟨isBoundary_zero _, [plainRecord], [plainRecord], rfl, rfl⟩

/-- A record with one byte behind its header. -/
def longRecord : TraceRecord where
  header := [0x07, 0x74, 0x61, 0x65] ++ List.replicate 42 0 ++ [1, 0]
  data := [0xff]
  length_header := rfl
  magic_eq := by decide
  length_data := by decide

/-- An end of file within a header: the record is missing. Behind a header: the task fails. -/
theorem readerTask_torn :
    readerTask 0 [plainRecord.bytes.take 10, [], plainRecord.bytes.drop 10] = .ok [] ∧
    readerTask 0 [longRecord.header, [], longRecord.data] =
      .error "Failed to read trace event data from trace file: early eof" := by
  decide +kernel

end CryptPilot.Core.Blktrace
