import Ichor.Tcp.Receiving

/-! The bytes that a TCP connection hands to its user are those that arrived, in their order: what
was given to the receive handler, what is queued for it, what lies in completions and what is unread
make up the stream. -/
namespace Ichor
open List

/-- The stream is handed over. A connection that takes the peer for closed has all of it. -/
structure Faithful (inbox : Inbox) (inFlight : Bytes) (inbound : Inbound)
    (stopped : Option StopReason) : Prop where
  stream : inbox.bytes ++ inFlight ++ inbound.unread = inbound.arrived
  handed : inbox.recvHandler = true → inbox.queuedMessages = []
  closed : stopped = some .closed → inFlight = [] ∧ inbound.Ended

section Faithful

variable {inbox : Inbox} {inFlight : Bytes} {inbound : Inbound} {stopped : Option StopReason}

theorem Faithful.fresh : Faithful .empty [] .fresh none :=
  ⟨rfl, fun _ => rfl, nofun⟩

section
variable (h : Faithful inbox inFlight inbound stopped)
include h

theorem Faithful.arrive (chunk : Bytes) (hopen : inbound.closed = false) :
    Faithful inbox inFlight (inbound.arrive chunk) stopped := by
  refine ⟨?_, h.handed, fun hclosed => ?_⟩
  · show inbox.bytes ++ inFlight ++ (inbound.unread ++ chunk) = inbound.arrived ++ chunk
    rw [← append_assoc, h.stream]
  · obtain ⟨-, -, hended⟩ := h.closed hclosed
    exact absurd (hopen.symm.trans hended) nofun

theorem Faithful.close : Faithful inbox inFlight { inbound with closed := true } stopped :=
  ⟨h.stream, h.handed, fun hclosed => ⟨(h.closed hclosed).1, (h.closed hclosed).2.1, rfl⟩⟩

theorem Faithful.setReceiveHandler : Faithful inbox.setReceiveHandler inFlight inbound stopped := by
  refine ⟨?_, fun _ => rfl, h.closed⟩
  have hbytes : inbox.setReceiveHandler.bytes = inbox.bytes := by
    simp [Inbox.setReceiveHandler, Inbox.bytes]
  rw [hbytes]
  exact h.stream

theorem Faithful.read (n : ℕ) :
    Faithful inbox (inFlight ++ inbound.unread.take n) (inbound.read n) stopped := by
  refine ⟨?_, h.handed, fun hclosed => ?_⟩
  · show inbox.bytes ++ (inFlight ++ inbound.unread.take n) ++ inbound.unread.drop n = inbound.arrived
    rw [append_assoc, append_assoc, take_append_drop, ← append_assoc, h.stream]
  · obtain ⟨hnil, hunread, hended⟩ := h.closed hclosed
    refine ⟨?_, ?_, hended⟩
    · rw [hnil, hunread]
      exact take_nil
    · show inbound.unread.drop n = []
      rw [hunread]
      exact drop_nil

end

theorem Faithful.receive {data rest : Bytes} (h : Faithful inbox (data ++ rest) inbound stopped) :
    Faithful (inbox.receive data) rest inbound stopped := by
  have hstream := h.stream
  unfold Inbox.receive
  by_cases hhandler : inbox.recvHandler = true
  · rw [if_pos hhandler]
    refine ⟨?_, h.handed, fun hclosed => ?_⟩
    · simpa [Inbox.bytes, h.handed hhandler] using hstream
    · exact ⟨(append_eq_nil_iff.mp (h.closed hclosed).1).2, (h.closed hclosed).2⟩
  · rw [if_neg hhandler]
    refine ⟨?_, fun hset => absurd hset hhandler, fun hclosed => ?_⟩
    · simpa [Inbox.bytes] using hstream
    · exact ⟨(append_eq_nil_iff.mp (h.closed hclosed).1).2, (h.closed hclosed).2⟩

end Faithful

/-! ## The polling connection -/

namespace PollingConnection

variable {s t : PollingConnection} {answers : List ℤ}

theorem recvLoop_spec {inbox : Inbox} {stopped : Option StopReason}
    {inbound inbound' : Inbound} {msg msg' : Bytes} {ret : ℤ}
    (h : Faithful inbox msg inbound stopped)
    (hloop : recvLoop false answers inbound msg = some (ret, msg', inbound')) :
    Faithful inbox msg' inbound' stopped ∧ (ret = 0 → inbound'.Ended) := by
  induction answers generalizing inbound msg with
  | nil => exact absurd hloop nofun
  | cons first rest ih =>
    unfold recvLoop at hloop
    by_cases hanswers : inbound.Answers 4096 first
    · rw [if_pos hanswers] at hloop
      by_cases hpos : 0 < first
      · rw [if_pos hpos] at hloop
        exact ih (h.read first.toNat) hloop
      · rw [if_neg hpos] at hloop
        cases hloop
        exact ⟨h, fun hzero => (hanswers.2.2 hzero).resolve_left (by decide)⟩
    · rw [if_neg hanswers] at hloop
      exact absurd hloop nofun

def Good (s : PollingConnection) : Prop :=
  s.quit = false → Faithful s.inbox [] s.inbound s.stopReason

theorem recvHandler_good {errno : ℤ} (h : Good s)
    (hrun : s.recvHandler answers errno = some t) : Good t := by
  unfold recvHandler at hrun
  rcases hloop : recvLoop s.quit answers s.inbound [] with _ | ⟨ret, msg, inbound⟩
  · rw [hloop] at hrun
    exact absurd hrun nofun
  rw [hloop] at hrun
  dsimp only at hrun
  cases hquit : s.quit with
  | true =>
    rw [hquit, if_pos rfl] at hrun
    obtain rfl := Option.some.inj hrun
    exact nofun
  | false =>
    rw [hquit] at hloop
    rw [hquit, if_neg Bool.false_ne_true] at hrun
    obtain ⟨hread, hended⟩ := recvLoop_spec (h hquit) hloop
    have hfaithful : Faithful (if msg.isEmpty then s.inbox else s.inbox.receive msg) [] inbound
        s.stopReason := by
      cases msg with
      | nil => exact hread
      | cons b msg => exact (show Faithful s.inbox ((b :: msg) ++ []) inbound s.stopReason by
          rwa [append_nil]).receive
    intro _
    split at hrun
    · rename_i hzero
      obtain rfl := Option.some.inj hrun
      exact { hfaithful with closed := fun _ => ⟨rfl, hended hzero⟩ }
    · split at hrun
      · obtain rfl := Option.some.inj hrun
        exact hfaithful
      · obtain rfl := Option.some.inj hrun
        exact { hfaithful with closed := nofun }

theorem Good.act (h : Good s) {a : Act} (hact : act a s = some t) : Good t := by
  cases a with
  | arrive chunk =>
    unfold PollingConnection.act at hact
    dsimp only at hact
    split at hact
    · exact absurd hact nofun
    · rename_i hopen
      obtain rfl := Option.some.inj hact
      exact fun hquit => (h hquit).arrive chunk (Bool.eq_false_iff.mpr hopen)
  | close =>
    obtain rfl := Option.some.inj hact
    exact fun hquit => (h hquit).close
  | poll answers errno => exact recvHandler_good h hact
  | setReceiveHandler =>
    obtain rfl := Option.some.inj hact
    exact fun hquit => (h hquit).setReceiveHandler
  | stop =>
    obtain rfl := Option.some.inj hact
    exact nofun

theorem Reaches.good (h : Reaches s) : Good s :=
  h.invariant Good (fun _ => Faithful.fresh) fun _ _ _ hgood _ hact => hgood.act hact

end PollingConnection

/-! ## The io_uring connection -/

namespace UringConnection

variable {s t : UringConnection}

/-- The kernel does not take an entry whose completion was not handled, has an entry for every
segment and keeps its request; a `recv` that ends has a buffer; and with one buffer a segment is
handled only when there is a receive handler. -/
def BuffersSuffice (s : UringConnection) : Act → Prop
  | .segment _ more => ∀ b, s.buffer = some b → more = true ∧ ∀ c ∈ s.completions, c.entry ≠ b.next
  | .finish res => res ≠ -ENOBUFS ∧ (res = 0 → s.recvSize ≠ 0)
  | .handle => s.buffer = none → ∀ c ∈ s.completions.head?, 0 < c.res → s.inbox.recvHandler = true
  | _ => True

/-- A completion has its bytes in a buffer. -/
structure Stored (s : UringConnection) (c : RecvCompletion) : Prop where
  nothing : c.res ≤ 0 → c.segment = []
  entry : ∀ b, s.buffer = some b → 0 < c.res →
    c.hasBuffer = true ∧ (b.readMemory c.entry).take c.res.toNat = c.segment
  recvBuf : s.buffer = none → 0 < c.res → s.recvBuf.take c.res.toNat = c.segment

/-- How far the request is. -/
inductive Stage (s : UringConnection) : Prop where
  | listening (armed : s.armed = true) (running : s.stopReason = none)
      (data : ∀ c ∈ s.completions, 0 < c.res) (single : s.buffer = none → s.completions = [])
  | last (armed : s.armed = false) (running : s.stopReason = none) (front : List RecvCompletion)
      (c : RecvCompletion) (completions : s.completions = front ++ [c])
      (data : ∀ d ∈ front, 0 < d.res) (single : s.buffer = none → front = [])
      (ended : c.res = 0 → s.inbound.Ended) (provided : 0 < c.res → s.buffer = none)
      (buffers : c.res ≠ -ENOBUFS)
  | stopped (armed : s.armed = false) (reason : s.stopReason ≠ none)
      (buffers : s.stopReason ≠ some (.error ENOBUFS)) (completions : s.completions = [])

structure Inv (s : UringConnection) : Prop where
  faithful : Faithful s.inbox s.inFlight s.inbound s.stopReason
  stored : ∀ c ∈ s.completions, Stored s c
  stage : Stage s

def Good (s : UringConnection) : Prop := s.quit = false → Inv s

theorem inFlight_append {c : RecvCompletion} (h : t.completions = s.completions ++ [c]) :
    t.inFlight = s.inFlight ++ c.segment := by
  simp [inFlight, h]

theorem Stored.same {c : RecvCompletion} (h : Stored s c) (hbuffer : t.buffer = s.buffer)
    (hrecvBuf : t.recvBuf = s.recvBuf) : Stored t c := by
  refine ⟨h.nothing, ?_, ?_⟩
  · rw [hbuffer]
    exact h.entry
  · rw [hbuffer, hrecvBuf]
    exact h.recvBuf

theorem Stage.same (h : Stage s) (harmed : t.armed = s.armed) (hreason : t.stopReason = s.stopReason)
    (hcompletions : t.completions = s.completions) (hbuffer : t.buffer = s.buffer)
    (hended : s.inbound.Ended → t.inbound.Ended) : Stage t := by
  rcases h with ⟨armed, running, data, single⟩ |
    ⟨armed, running, front, c, completions, data, single, ended, provided, buffers⟩ |
    ⟨armed, reason, buffers, completions⟩
  · refine .listening (harmed.trans armed) (hreason.trans running) ?_ ?_
    · rw [hcompletions]
      exact data
    · rw [hcompletions, hbuffer]
      exact single
  · refine .last (harmed.trans armed) (hreason.trans running) front c
      (hcompletions.trans completions) data ?_ (fun hzero => hended (ended hzero)) ?_ buffers
    · rw [hbuffer]
      exact single
    · rw [hbuffer]
      exact provided
  · refine .stopped (harmed.trans armed) ?_ ?_ (hcompletions.trans completions)
    · rw [hreason]
      exact reason
    · rw [hreason]
      exact buffers

theorem Inv.arrive (h : Inv s) (chunk : Bytes) (hopen : s.inbound.closed = false) :
    Inv { s with inbound := s.inbound.arrive chunk } :=
  ⟨h.faithful.arrive chunk hopen, fun c hc => (h.stored c hc).same rfl rfl,
    h.stage.same rfl rfl rfl rfl fun hended => absurd (hopen.symm.trans hended.2) nofun⟩

theorem Inv.close (h : Inv s) : Inv { s with inbound := { s.inbound with closed := true } } :=
  ⟨h.faithful.close, fun c hc => (h.stored c hc).same rfl rfl,
    h.stage.same rfl rfl rfl rfl fun hended => ⟨hended.1, rfl⟩⟩

theorem Inv.setReceiveHandler (h : Inv s) : Inv { s with inbox := s.inbox.setReceiveHandler } :=
  ⟨h.faithful.setReceiveHandler, fun c hc => (h.stored c hc).same rfl rfl,
    h.stage.same rfl rfl rfl rfl id⟩

theorem Stage.of_armed (h : Stage s) (harmed : s.armed = true) :
    s.stopReason = none ∧ (∀ c ∈ s.completions, 0 < c.res) ∧
      (s.buffer = none → s.completions = []) := by
  rcases h with ⟨-, running, data, single⟩ | ⟨armed, -, -, -, -, -, -, -, -, -⟩ | ⟨armed, -, -, -⟩
  · exact ⟨running, data, single⟩
  · exact absurd (harmed.symm.trans armed) nofun
  · exact absurd (harmed.symm.trans armed) nofun

theorem Inv.finish (h : Inv s) {res : ℤ} (harmed : s.armed = true) (hres : res ≤ 0)
    (hbuffers : res ≠ -ENOBUFS) (hended : res = 0 → s.inbound.Ended) :
    Inv { s with armed := false, completions := s.completions ++ [⟨res, false, 0, []⟩] } := by
  obtain ⟨hrunning, hdata, hsingle⟩ := h.stage.of_armed harmed
  refine ⟨?_, fun c hc => ?_, ?_⟩
  · have hflight : ({ s with armed := false, completions := s.completions ++ [⟨res, false, 0, []⟩] } :
        UringConnection).inFlight = s.inFlight :=
      (inFlight_append rfl).trans (append_nil _)
    rw [hflight]
    exact h.faithful
  · rcases mem_append.mp hc with hc | hc
    · exact (h.stored c hc).same rfl rfl
    · rw [mem_singleton.mp hc]
      exact ⟨fun _ => rfl, fun _ _ hpos => absurd hpos (Int.not_lt.mpr hres),
        fun _ hpos => absurd hpos (Int.not_lt.mpr hres)⟩
  · exact .last rfl hrunning s.completions _ rfl hdata hsingle hended
      (fun hpos => absurd hpos (Int.not_lt.mpr hres)) hbuffers

/-! ### Segments -/

variable {n : ℕ} {b : IOUringBuf} {more : Bool}

theorem take_segment {segment rest : Bytes} (h : segment.length = n) :
    (segment ++ rest).take n = segment := by
  rw [← h]
  exact take_left

theorem readMemory_fill {segment : Bytes} (hlength : segment.length = n)
    (hsize : n ≤ b.entryBufferSize) : ((b.fill segment).readMemory b.next).take n = segment := by
  show (List.take b.entryBufferSize (Function.update b.memory b.next
    (segment ++ (b.memory b.next).drop segment.length) b.next)).take n = segment
  rw [Function.update_self, take_take, Nat.min_eq_left hsize]
  exact take_segment hlength

theorem readMemory_fill_ne {segment : Bytes} {entry : ℕ} (hne : entry ≠ b.next) :
    (b.fill segment).readMemory entry = b.readMemory entry := by
  show List.take b.entryBufferSize (Function.update b.memory b.next _ entry) = _
  rw [Function.update_of_ne hne]
  rfl

theorem Inv.segment_provided (h : Inv s) (hbuffer : s.buffer = some b)
    (harmed : s.armed = true) (hn : 0 < n) (hsize : n ≤ b.entryBufferSize)
    (hunread : n ≤ s.inbound.unread.length) (hentries : ∀ c ∈ s.completions, c.entry ≠ b.next) :
    Inv (s.segment n true) := by
  have hlength : (s.inbound.unread.take n).length = n := length_take_of_le hunread
  obtain ⟨hrunning, hdata, -⟩ := h.stage.of_armed harmed
  have heq : s.segment n true = { s with
      inbound := s.inbound.read n
      buffer := some (b.fill (s.inbound.unread.take n))
      armed := true
      completions := s.completions ++ [⟨n, true, b.next, s.inbound.unread.take n⟩] } := by
    unfold UringConnection.segment
    simp only [hbuffer]
  rw [heq]
  refine ⟨?_, fun c hc => ?_, ?_⟩
  · rw [inFlight_append (s := s) rfl]
    exact h.faithful.read n
  · rcases mem_append.mp hc with hc | hc
    · have hold := h.stored c hc
      refine ⟨hold.nothing, fun b' hb' hpos => ?_, nofun⟩
      obtain rfl := Option.some.inj hb'
      rw [readMemory_fill_ne (hentries c hc)]
      exact hold.entry b hbuffer hpos
    · rw [mem_singleton.mp hc]
      refine ⟨fun hle => ?_, fun b' hb' _ => ?_, nofun⟩
      · exact absurd hle (Int.not_le.mpr (Int.natCast_pos.mpr hn))
      · obtain rfl := Option.some.inj hb'
        exact ⟨rfl, readMemory_fill hlength hsize⟩
  · refine .listening rfl hrunning (fun c hc => ?_) nofun
    rcases mem_append.mp hc with hc | hc
    · exact hdata c hc
    · rw [mem_singleton.mp hc]
      exact Int.natCast_pos.mpr hn

theorem Inv.segment_single (h : Inv s) (hbuffer : s.buffer = none)
    (harmed : s.armed = true) (hn : 0 < n) (hunread : n ≤ s.inbound.unread.length) :
    Inv (s.segment n more) := by
  have hlength : (s.inbound.unread.take n).length = n := length_take_of_le hunread
  obtain ⟨hrunning, -, hsingle⟩ := h.stage.of_armed harmed
  have hnil := hsingle hbuffer
  have heq : s.segment n more = { s with
      inbound := s.inbound.read n
      recvBuf := s.inbound.unread.take n ++ s.recvBuf.drop (s.inbound.unread.take n).length
      armed := false
      completions := s.completions ++ [⟨n, false, 0, s.inbound.unread.take n⟩] } := by
    unfold UringConnection.segment
    simp only [hbuffer]
  rw [heq]
  refine ⟨?_, fun c hc => ?_, ?_⟩
  · rw [inFlight_append (s := s) rfl]
    exact h.faithful.read n
  · rw [hnil] at hc
    rw [mem_singleton.mp hc]
    refine ⟨fun hle => absurd hle (Int.not_le.mpr (Int.natCast_pos.mpr hn)), fun b hb => ?_,
      fun _ _ => ?_⟩
    · exact absurd (hbuffer.symm.trans hb) nofun
    · exact take_segment hlength
  · exact .last rfl hrunning [] _ (by rw [hnil]) (fun d hd => absurd hd not_mem_nil)
      (fun _ => rfl) (fun hzero => absurd hzero (by simpa using Nat.ne_of_gt hn)) (fun _ => hbuffer)
      (fun hneg => absurd hneg (by simp [ENOBUFS]))

/-! ### Completions -/

theorem Stage.front (h : Stage s) {c : RecvCompletion} {rest : List RecvCompletion}
    (hcompletions : s.completions = c :: rest) : s.stopReason = none ∧
      ((c.res ≤ 0 ∧ s.armed = false ∧ rest = [] ∧ (c.res = 0 → s.inbound.Ended) ∧ c.res ≠ -ENOBUFS) ∨
        (0 < c.res ∧ s.buffer = none ∧ rest = []) ∨
        (0 < c.res ∧ s.buffer ≠ none ∧ Stage { s with completions := rest })) := by
  rcases h with ⟨armed, running, data, single⟩ |
    ⟨armed, running, front, last, completions, data, single, ended, provided, buffers⟩ |
    ⟨armed, reason, buffers, completions⟩
  · refine ⟨running, .inr (.inr ⟨data c ?_, fun hnone => ?_, ?_⟩)⟩
    · rw [hcompletions]
      exact mem_cons_self
    · exact absurd (hcompletions.symm.trans (single hnone)) nofun
    · refine .listening armed running (fun d hd => data d ?_) fun hnone => ?_
      · rw [hcompletions]
        exact mem_cons_of_mem _ hd
      · exact absurd (hcompletions.symm.trans (single hnone)) nofun
  · refine ⟨running, ?_⟩
    rw [hcompletions] at completions
    cases front with
    | nil =>
      obtain ⟨rfl, rfl⟩ := List.cons.inj completions
      by_cases hpos : 0 < c.res
      · exact .inr (.inl ⟨hpos, provided hpos, rfl⟩)
      · exact .inl ⟨Int.not_lt.mp hpos, armed, rfl, ended, buffers⟩
    | cons d front =>
      obtain ⟨rfl, hrest⟩ := List.cons.inj completions
      have hbuffer : s.buffer ≠ none := fun hnone => absurd (single hnone) nofun
      refine .inr (.inr ⟨data c mem_cons_self, hbuffer, ?_⟩)
      exact .last armed running front last hrest (fun e he => data e (mem_cons_of_mem _ he))
        (fun hnone => absurd hnone hbuffer) ended provided buffers
  · exact absurd (hcompletions.symm.trans completions) nofun

section Handle

variable {c : RecvCompletion} {rest : List RecvCompletion}

theorem recvHandler_ended (hquit : s.quit = false) (hres : c.res ≤ 0) : s.recvHandler c =
      { s with stopReason := some (if c.res = 0 then .closed else .error (-c.res)) } := by
  unfold recvHandler
  rw [hquit, if_neg Bool.false_ne_true, if_pos hres]

theorem recvHandler_single (hquit : s.quit = false) (hpos : 0 < c.res) (hbuffer : s.buffer = none)
    (hhandler : s.inbox.recvHandler = true) : s.recvHandler c =
      { s with inbox := s.inbox.receive (s.recvBuf.take c.res.toNat), armed := true } := by
  unfold recvHandler
  rw [hquit, if_neg Bool.false_ne_true, if_neg (Int.not_le.mpr hpos), hbuffer]
  exact if_pos hhandler

theorem recvHandler_entry (hquit : s.quit = false) (hpos : 0 < c.res)
    (hbuffer : s.buffer = some b) (hentry : c.hasBuffer = true) :
    s.recvHandler c = { s with
      inbox := s.inbox.receive ((b.readMemory c.entry).take c.res.toNat)
      buffer := some (b.markEntryAvailableAgain c.entry) } := by
  unfold recvHandler
  rw [hquit, if_neg Bool.false_ne_true, if_neg (Int.not_le.mpr hpos), hbuffer]
  exact if_neg (not_not_intro hentry)

section
variable (h : Inv s) (hquit : s.quit = false)
include h hquit

theorem Inv.handle_ended (hcompletions : s.completions = [c])
    (hres : c.res ≤ 0) (harmed : s.armed = false) (hended : c.res = 0 → s.inbound.Ended)
    (hbuffers : c.res ≠ -ENOBUFS) : Inv ({ s with completions := [] }.recvHandler c) := by
  have hstored := h.stored c (by rw [hcompletions]; exact mem_cons_self)
  have hflight : s.inFlight = [] := by
    simp [inFlight, hcompletions, hstored.nothing hres]
  have hfaithful := h.faithful
  rw [hflight] at hfaithful
  rw [recvHandler_ended (s := { s with completions := [] }) hquit hres]
  refine ⟨⟨hfaithful.stream, hfaithful.handed, fun hclosed => ⟨rfl, hended ?_⟩⟩,
    fun d hd => absurd hd not_mem_nil, .stopped harmed nofun ?_ rfl⟩
  · by_contra hne
    rw [if_neg hne] at hclosed
    exact absurd hclosed nofun
  · intro hreason
    by_cases hzero : c.res = 0
    · rw [if_pos hzero] at hreason
      exact absurd hreason nofun
    · rw [if_neg hzero] at hreason
      refine hbuffers ?_
      have herror : -c.res = ENOBUFS := by simpa using hreason
      omega

theorem Inv.handle_single (hcompletions : s.completions = [c])
    (hpos : 0 < c.res) (hbuffer : s.buffer = none) (hrunning : s.stopReason = none)
    (hhandler : s.inbox.recvHandler = true) : Inv ({ s with completions := [] }.recvHandler c) := by
  have hstored := h.stored c (by rw [hcompletions]; exact mem_cons_self)
  have hflight : s.inFlight = c.segment ++ [] := by
    simp [inFlight, hcompletions]
  have hfaithful := h.faithful
  rw [hflight] at hfaithful
  rw [recvHandler_single (s := { s with completions := [] }) hquit hpos hbuffer hhandler]
  refine ⟨?_, fun d hd => absurd hd not_mem_nil,
    .listening rfl hrunning (fun d hd => absurd hd not_mem_nil) fun _ => rfl⟩
  show Faithful (s.inbox.receive (s.recvBuf.take c.res.toNat)) [] s.inbound s.stopReason
  rw [hstored.recvBuf hbuffer hpos]
  exact hfaithful.receive

theorem Inv.handle_entry (hcompletions : s.completions = c :: rest)
    (hpos : 0 < c.res) (hbuffer : s.buffer = some b)
    (hstage : Stage { s with completions := rest }) :
    Inv ({ s with completions := rest }.recvHandler c) := by
  have hstored := h.stored c (by rw [hcompletions]; exact mem_cons_self)
  obtain ⟨hentry, hbytes⟩ := hstored.entry b hbuffer hpos
  have hflight : s.inFlight = c.segment ++ (rest.map RecvCompletion.segment).flatten := by
    simp [inFlight, hcompletions]
  have hfaithful := h.faithful
  rw [hflight] at hfaithful
  rw [recvHandler_entry (s := { s with completions := rest }) hquit hpos hbuffer hentry]
  refine ⟨?_, fun d hd => ?_, ?_⟩
  · show Faithful (s.inbox.receive ((b.readMemory c.entry).take c.res.toNat)) _ s.inbound s.stopReason
    rw [hbytes]
    exact hfaithful.receive
  · have hold := h.stored d (by rw [hcompletions]; exact mem_cons_of_mem _ hd)
    refine ⟨hold.nothing, fun b' hb' hd' => ?_, nofun⟩
    obtain rfl := Option.some.inj hb'
    exact hold.entry b hbuffer hd'
  · have hsome : s.buffer ≠ none := by
      rw [hbuffer]
      exact nofun
    rcases hstage with ⟨armed, running, data, single⟩ |
      ⟨armed, running, front, last, completions, data, single, ended, provided, buffers⟩ |
      ⟨armed, reason, buffers, completions⟩
    · exact .listening armed running data nofun
    · exact .last armed running front last completions data nofun ended
        (fun hlast => absurd (provided hlast) hsome) buffers
    · exact .stopped armed reason buffers completions

theorem Inv.handle (hcompletions : s.completions = c :: rest)
    (hcond : s.buffer = none → 0 < c.res → s.inbox.recvHandler = true) :
    Inv ({ s with completions := rest }.recvHandler c) := by
  obtain ⟨hrunning, ⟨hres, harmed, rfl, hended, hbuffers⟩ | ⟨hpos, hbuffer, rfl⟩ |
    ⟨hpos, hbuffer, hstage⟩⟩ := h.stage.front hcompletions
  · exact h.handle_ended hquit hcompletions hres harmed hended hbuffers
  · exact h.handle_single hquit hcompletions hpos hbuffer hrunning (hcond hbuffer hpos)
  · obtain ⟨b, hb⟩ := Option.ne_none_iff_exists'.mp hbuffer
    exact h.handle_entry hquit hcompletions hpos hb hstage

end

end Handle

/-! ### Runs -/

theorem recvHandler_quit (s : UringConnection) (c : RecvCompletion) :
    (s.recvHandler c).quit = s.quit := by
  unfold recvHandler
  repeat' split
  all_goals rfl

theorem segment_quit (s : UringConnection) (n : ℕ) (more : Bool) : (s.segment n more).quit = s.quit := by
  unfold UringConnection.segment
  dsimp only
  split <;> rfl

theorem Inv.segment (h : Inv s) (harmed : s.armed = true) (hn : 0 < n)
    (hanswers : s.inbound.Answers s.recvSize n)
    (hcond : ∀ b, s.buffer = some b → more = true ∧ ∀ c ∈ s.completions, c.entry ≠ b.next) :
    Inv (s.segment n more) := by
  obtain ⟨hsize, hunread, -⟩ := hanswers
  have hunread' : n ≤ s.inbound.unread.length := Int.ofNat_le.mp hunread
  rcases hbuffer : s.buffer with _ | b
  · exact h.segment_single hbuffer harmed hn hunread'
  · obtain ⟨rfl, hentries⟩ := hcond b hbuffer
    refine h.segment_provided hbuffer harmed hn ?_ hunread' hentries
    unfold recvSize at hsize
    rw [hbuffer] at hsize
    exact Int.ofNat_le.mp hsize

theorem Good.act (h : Good s) {a : Act} (hcond : BuffersSuffice s a) (hact : act a s = some t) :
    Good t := by
  cases a with
  | arrive chunk =>
    unfold UringConnection.act at hact
    dsimp only at hact
    split at hact
    · exact absurd hact nofun
    · rename_i hopen
      obtain rfl := Option.some.inj hact
      exact fun hquit => (h hquit).arrive chunk (Bool.eq_false_iff.mpr hopen)
  | close =>
    obtain rfl := Option.some.inj hact
    exact fun hquit => (h hquit).close
  | segment n more =>
    unfold UringConnection.act at hact
    dsimp only at hact
    split at hact
    · rename_i hguard
      obtain ⟨harmed, hn, hanswers, -⟩ := hguard
      obtain rfl := Option.some.inj hact
      intro hquit
      rw [segment_quit] at hquit
      exact (h hquit).segment harmed hn hanswers hcond
    · exact absurd hact nofun
  | finish res =>
    unfold UringConnection.act at hact
    dsimp only at hact
    split at hact
    · rename_i hguard
      obtain ⟨harmed, hres, hanswers, -⟩ := hguard
      obtain rfl := Option.some.inj hact
      obtain ⟨hbuffers, hsize⟩ := hcond
      exact fun hquit => (h hquit).finish harmed hres hbuffers fun hzero =>
        (hanswers.2.2 hzero).resolve_left (hsize hzero)
    · exact absurd hact nofun
  | handle =>
    unfold UringConnection.act at hact
    dsimp only at hact
    split at hact
    · exact absurd hact nofun
    · rename_i c rest hcompletions
      obtain rfl := Option.some.inj hact
      intro hquit
      rw [recvHandler_quit] at hquit
      refine (h hquit).handle hquit hcompletions fun hbuffer hpos => hcond hbuffer c ?_ hpos
      rw [hcompletions]
      rfl
  | setReceiveHandler =>
    obtain rfl := Option.some.inj hact
    exact fun hquit => (h hquit).setReceiveHandler
  | stop =>
    obtain rfl := Option.some.inj hact
    exact nofun

theorem Good.start (cfg : RecvSettings) : Good (start cfg) :=
  fun _ => ⟨Faithful.fresh, fun _ hc => absurd hc not_mem_nil,
    .listening rfl rfl (fun _ hc => absurd hc not_mem_nil) fun _ => rfl⟩

variable {cfg : RecvSettings}

theorem Reaches.good (h : Reaches cfg BuffersSuffice s) : Good s :=
  h.invariant Good (Good.start cfg) fun _ _ _ hgood hcond hact => hgood.act hcond hact

theorem Stage.waits (h : Stage s) (hrunning : s.stopReason = none) :
    s.armed = true ∨ s.completions ≠ [] := by
  rcases h with ⟨armed, -, -, -⟩ | ⟨-, -, front, c, completions, -, -, -, -, -⟩ | ⟨-, reason, -, -⟩
  · exact .inl armed
  · refine .inr ?_
    rw [completions]
    exact append_ne_nil_of_right_ne_nil _ nofun
  · exact absurd hrunning reason

theorem Stage.buffers (h : Stage s) : s.stopReason ≠ some (.error ENOBUFS) := by
  rcases h with ⟨-, running, -, -⟩ | ⟨-, running, -, -, -, -, -, -, -, -⟩ | ⟨-, -, buffers, -⟩
  · rw [running]
    exact nofun
  · rw [running]
    exact nofun
  · exact buffers

theorem act_segment (harmed : s.armed = true) (hn : 0 < n)
    (hanswers : s.inbound.Answers s.recvSize n) (hentry : s.exhausted = false) :
    act (.segment n more) s = some (s.segment n more) := by
  refine if_pos ⟨harmed, hn, hanswers, ?_⟩
  rw [hentry]
  exact Bool.false_ne_true

end UringConnection

end Ichor
