import FlinkExplorer.Lib.Bytes
import FlinkExplorer.Lib.Utf

namespace FlinkExplorer

open Lib

/-!
# `web/http.rs` — a streamed download

A producer's thread writes into a `ChannelWriter`, whose chunks go through a bounded channel to the
body of the response.  `Streaming` is the state of one download with what has happened so far, and
`Step` is one step of either side:

* `Streaming.Good` — what holds in every state that can be reached;
* `good_of_reachable` — by induction over the steps, in any order;
* `Streaming.Failing`, `distance_lt_of_step` — after a failure each step brings the error nearer;
* `streamed_download` — a prefix at every moment, a clean end only for all of it, an error for every
  failure.
-/

/-- `CHUNK_BYTES`. -/
def chunkBytes : Nat := 64 * 1024

/-- `CHUNKS_IN_FLIGHT`. -/
def chunksInFlight : Nat := 4

/-- What the producer of a streamed body sends to the connection. -/
inductive Chunk
  | data (bytes : Bytes)
  | fail (why : Text)
  | done
  deriving DecidableEq

/-- The bytes of a data chunk. -/
def Chunk.bytes : Chunk → Bytes
  | .data b => b
  | .fail _ | .done => []

/-- The last message of a producer. -/
def lastChunk : Except Text Unit → Chunk
  | .ok () => .done
  | .error why => .fail why

/-- Where the producer's thread is. -/
inductive Producer
  /-- Inside `produce`, between two writes. -/
  | producing
  /-- Blocked in `send_buffered`: in a write, or (`last`) after `produce` returned. -/
  | sending (chunk : Bytes) (last : Bool)
  /-- About to send its last message. -/
  | closing (result : Except Text Unit)
  /-- Its senders are dropped. -/
  | gone

/-- Where the receiving side is. -/
inductive Receiver
  /-- `streamed` waits for the first message. -/
  | waiting
  /-- A `ChannelBody`. -/
  | body (first : Option Bytes) (done : Bool)
  /-- The response's own body, which is empty for a download. -/
  | full
  | dropped

/-- Whether the channel can be sent to. -/
def Receiver.isOpen : Receiver → Bool
  | .waiting | .body _ _ => true
  | .full | .dropped => false

/-- The response: a chunked `200`, a `200` without bytes, or a `500`. -/
inductive Reply
  | started
  | complete
  | failed

/-- What a poll of a body gives. -/
inductive BodyFrame
  | data (bytes : Bytes)
  | error (why : Text)
  | ended
  deriving DecidableEq

/-- The bytes of a data frame. -/
def BodyFrame.bytes : BodyFrame → Bytes
  | .data b => b
  | .error _ | .ended => []

/-- One download, and its history: the bytes `written` to the writer, the `result` of the producer,
    the `log` of the messages put into the channel, and the `frames` the body has given. -/
structure Streaming where
  buf : Bytes
  producer : Producer
  queue : List Chunk
  receiver : Receiver
  reply : Option Reply
  written : Bytes
  result : Option (Except Text Unit)
  log : List Chunk
  frames : List BodyFrame

namespace Streaming

/-- `streamed` before its first step. -/
def start : Streaming := ⟨[], .producing, [], .waiting, none, [], none, [], []⟩

variable (s : Streaming)

/-- The producer has come to a result: its last message is next. -/
def close (result : Except Text Unit) : Streaming :=
  { s with producer := .closing result, result := some result }

/-- What follows `send_buffered` when it succeeds. -/
def afterSend (last : Bool) : Streaming :=
  if last then s.close (.ok ()) else { s with producer := .producing }

/-- `ChannelWriter::send_buffered`. -/
def sendBuffered (last : Bool) : Streaming :=
  if s.buf = [] then s.afterSend last
  else { s with buf := [], producer := .sending s.buf last }

/-- `ChannelWriter::write`. -/
def write (data : Bytes) : Streaming :=
  let s := { s with buf := s.buf ++ data }
  if s.buf.length ≥ chunkBytes then s.sendBuffered false else s

/-- The history of a write. -/
def wrote (data : Bytes) : Streaming := { s with written := s.written ++ data }

/-- A message goes into the channel. -/
def put (m : Chunk) : Streaming := { s with queue := s.queue ++ [m], log := s.log ++ [m] }

/-- `send_buffered` fails when the receiver is gone. -/
def sendFails (last : Bool) : Streaming :=
  if last then s.close (.error "the client went away".toList)
  else { s with producer := .producing }

/-- `streamed` answers by the first message. -/
def respond (m : Chunk) (rest : List Chunk) : Streaming :=
  match m with
  | .data first =>
    { s with queue := rest, receiver := .body (some first) false, reply := some .started }
  | .done => { s with queue := [], receiver := .full, reply := some .complete }
  | .fail _ => { s with queue := [], receiver := .dropped, reply := some .failed }

/-- `ChannelBody::poll_frame`, when it takes a message from the channel. -/
def take (m : Chunk) (rest : List Chunk) : Streaming :=
  match m with
  | .data b => { s with queue := rest, frames := s.frames ++ [.data b] }
  | .done => { s with queue := rest, receiver := .body none true, frames := s.frames ++ [.ended] }
  | .fail e =>
    { s with queue := rest, receiver := .body none true, frames := s.frames ++ [.error e] }

/-- The bytes of the data frames so far. -/
def delivered : Bytes := s.frames.flatMap BodyFrame.bytes

end Streaming

/-- Whose step it is. -/
inductive Act
  | producer
  | connection
  | client
  deriving DecidableEq

/-- One step of a download.  A poll that finds an empty channel with a sender left changes nothing,
    and is no step. -/
inductive Step (s : Streaming) : Act → Streaming → Prop
  | write (data : Bytes) (h : s.producer = .producing) :
      Step s .producer ((s.wrote data).write data)
  | returns (h : s.producer = .producing) : Step s .producer (s.sendBuffered true)
  /-- `produce` fails, or panics. -/
  | fails (why : Text) (h : s.producer = .producing) : Step s .producer (s.close (.error why))
  | sends (chunk : Bytes) (last : Bool) (h : s.producer = .sending chunk last)
      (hopen : s.receiver.isOpen = true) (hroom : s.queue.length < chunksInFlight) :
      Step s .producer ((s.put (.data chunk)).afterSend last)
  | sendFails (chunk : Bytes) (last : Bool) (h : s.producer = .sending chunk last)
      (hopen : s.receiver.isOpen = false) : Step s .producer (s.sendFails last)
  | closes (result : Except Text Unit) (h : s.producer = .closing result)
      (hopen : s.receiver.isOpen = true) (hroom : s.queue.length < chunksInFlight) :
      Step s .producer { s.put (lastChunk result) with producer := .gone }
  | unheard (result : Except Text Unit) (h : s.producer = .closing result)
      (hopen : s.receiver.isOpen = false) : Step s .producer { s with producer := .gone }
  /-- The producer's task is dropped by the runtime. -/
  | vanishes (h : s.producer ≠ .gone) : Step s .producer { s with producer := .gone }
  | responds (m : Chunk) (rest : List Chunk) (h : s.receiver = .waiting) (hq : s.queue = m :: rest) :
      Step s .connection (s.respond m rest)
  | respondsError (h : s.receiver = .waiting) (hq : s.queue = []) (hp : s.producer = .gone) :
      Step s .connection { s with receiver := .dropped, reply := some .failed }
  | pollFirst (first : Bytes) (done : Bool) (h : s.receiver = .body (some first) done) :
      Step s .connection
        { s with receiver := .body none done, frames := s.frames ++ [.data first] }
  | pollDone (h : s.receiver = .body none true) :
      Step s .connection { s with frames := s.frames ++ [.ended] }
  | pollTakes (m : Chunk) (rest : List Chunk) (h : s.receiver = .body none false)
      (hq : s.queue = m :: rest) : Step s .connection (s.take m rest)
  | pollEarly (h : s.receiver = .body none false) (hq : s.queue = []) (hp : s.producer = .gone) :
      Step s .connection { s with
        receiver := .body none true
        frames := s.frames ++ [.error "the download ended early".toList] }
  | pollFull (h : s.receiver = .full) :
      Step s .connection { s with frames := s.frames ++ [.ended] }
  | drops (h : s.receiver.isOpen = true) :
      Step s .client { s with receiver := .dropped, queue := [] }

/-- A state that a download can come to. -/
inductive Streaming.Reachable : Streaming → Prop
  | start : Reachable .start
  | next {s s' : Streaming} {a : Act} (h : Reachable s) (step : Step s a s') : Reachable s'

/-! ### What holds in every state -/

/-- The bytes of messages. -/
def bytesOf (ms : List Chunk) : Bytes := ms.flatMap Chunk.bytes

/-- Messages that all carry data. -/
def AllData (ms : List Chunk) : Prop := ∀ m ∈ ms, ∃ b, m = .data b

@[simp] theorem bytesOf_nil : bytesOf [] = [] := rfl

@[simp] theorem bytesOf_append (ms ns : List Chunk) :
    bytesOf (ms ++ ns) = bytesOf ms ++ bytesOf ns := List.flatMap_append

@[simp] theorem bytesOf_data (b : Bytes) : bytesOf [.data b] = b := List.append_nil b

@[simp] theorem bytesOf_last (r : Except Text Unit) : bytesOf [lastChunk r] = [] := by
  rcases r with e | ⟨⟨⟩⟩ <;> rfl

@[simp] theorem allData_nil : AllData [] := fun _ h => absurd h List.not_mem_nil

@[simp] theorem allData_append {ms ns : List Chunk} :
    AllData (ms ++ ns) ↔ AllData ms ∧ AllData ns := List.forall_mem_append

@[simp] theorem allData_data (b : Bytes) : AllData [.data b] := by
  intro m hm
  exact ⟨b, List.mem_singleton.mp hm⟩

namespace Streaming

variable (s : Streaming)

/-- The producer's side while the channel is open: what went in, what is held back and the
    messages' order. -/
def Sending : Prop :=
  match s.producer with
  | .producing => s.result = none ∧ AllData s.log ∧ bytesOf s.log ++ s.buf = s.written
  | .sending chunk _ =>
    s.result = none ∧ AllData s.log ∧ s.buf = [] ∧ bytesOf s.log ++ chunk = s.written
  | .closing r =>
    s.result = some r ∧ AllData s.log ∧ (r = .ok () → bytesOf s.log = s.written)
  | .gone =>
    AllData s.log ∨ ∃ ms r, s.result = some r ∧ s.log = ms ++ [lastChunk r] ∧ AllData ms
      ∧ (r = .ok () → bytesOf ms = s.written)

/-- A body that has ended: on an error, or with everything. -/
def Over : Prop := (∃ e, .error e ∈ s.frames) ∨ s.result = some (.ok ()) ∧ s.delivered = s.written

/-- The receiver's side: which messages have been taken, and what came of them. -/
def Receiving : Prop :=
  match s.receiver with
  | .waiting => s.reply = none ∧ s.frames = [] ∧ s.queue = s.log
  | .body (some first) done =>
    s.reply = some .started ∧ done = false ∧ s.frames = [] ∧ s.log = .data first :: s.queue
  | .body none false => s.reply = some .started ∧ ∃ first bs,
    s.frames = (first :: bs).map BodyFrame.data ∧ s.log = (first :: bs).map Chunk.data ++ s.queue
  | .body none true =>
    s.reply = some .started ∧ s.producer = .gone ∧ s.queue = [] ∧ s.Over
      ∧ ∃ first ms, s.log = .data first :: ms
  | .full => s.reply = some .complete ∧ s.producer = .gone ∧ s.result = some (.ok ())
    ∧ s.delivered = s.written
  | .dropped => True

/-- What holds in every state of a download. -/
structure Good : Prop where
  sending : s.receiver.isOpen = true → s.Sending
  receiving : s.Receiving
  sent : bytesOf s.log <+: s.written
  delivered : s.delivered <+: bytesOf s.log
  finished : .ended ∈ s.frames → s.producer = .gone ∧ s.Over
  result : (∃ r, s.producer = .closing r) ∨ s.producer = .gone ∨ s.result = none
  started : s.reply = some .started → ∃ first ms, s.log = .data first :: ms
  complete : s.reply = some .complete → s.producer = .gone ∧ s.result = some (.ok ())
  failed : s.reply = some .failed → s.receiver.isOpen = false ∧ ∀ b, .data b ∉ s.log

variable {s} {s' : Streaming}

/-- A step of the producer: it leaves the receiver as it is, and puts `new` into the channel. -/
structure Kept (s s' : Streaming) (new : List Chunk) : Prop where
  running : s.producer ≠ .gone
  receiver : s'.receiver = s.receiver
  reply : s'.reply = s.reply
  frames : s'.frames = s.frames
  queue : s'.queue = s.queue ++ new
  log : s'.log = s.log ++ new
  heard : new ≠ [] → s.receiver.isOpen = true

/-- A producer that still runs has not been heard to the end. -/
theorem Kept.receiving {new : List Chunk} (hk : Kept s s' new) (hs : s.Receiving) :
    s'.Receiving := by
  unfold Receiving at hs ⊢
  rw [hk.receiver, hk.reply, hk.frames, hk.queue, hk.log]
  cases hr : s.receiver with
  | waiting =>
    rw [hr] at hs
    obtain ⟨hreply, hframes, hqueue⟩ := hs
    exact ⟨hreply, hframes, by rw [hqueue]⟩
  | body first done =>
    rw [hr] at hs
    cases first with
    | some first =>
      obtain ⟨hreply, hdone, hframes, hlog⟩ := hs
      exact ⟨hreply, hdone, hframes, by rw [hlog, List.cons_append]⟩
    | none =>
      cases done with
      | false =>
        obtain ⟨hreply, first, bs, hframes, hlog⟩ := hs
        exact ⟨hreply, first, bs, hframes, by rw [hlog, List.append_assoc]⟩
      | true => exact absurd hs.2.1 hk.running
  | full =>
    rw [hr] at hs
    exact absurd hs.2.1 hk.running
  | dropped => trivial

/-- **A step of the producer keeps what holds**, when it does so on its own side. -/
theorem Good.of_kept {new : List Chunk} (h : s.Good) (hk : Kept s s' new)
    (hsending : s.receiver.isOpen = true → s'.Sending) (hsent : bytesOf s'.log <+: s'.written)
    (hresult : (∃ r, s'.producer = .closing r) ∨ s'.producer = .gone ∨ s'.result = none) :
    s'.Good where
  sending hopen := hsending (hk.receiver ▸ hopen)
  receiving := hk.receiving h.receiving
  sent := hsent
  delivered := by
    have hsame : s'.delivered = s.delivered := congrArg (List.flatMap BodyFrame.bytes) hk.frames
    rw [hsame, hk.log, bytesOf_append]
    exact h.delivered.trans (List.prefix_append _ _)
  finished hended := absurd (h.finished (hk.frames ▸ hended)).1 hk.running
  result := hresult
  started hreply := by
    obtain ⟨first, ms, hlog⟩ := h.started (hk.reply ▸ hreply)
    exact ⟨first, ms ++ new, by rw [hk.log, hlog, List.cons_append]⟩
  complete hreply := absurd (h.complete (hk.reply ▸ hreply)).1 hk.running
  failed hreply := by
    obtain ⟨hclosed, hdata⟩ := h.failed (hk.reply ▸ hreply)
    have hnew : new = [] := by
      by_contra hnew
      rw [hk.heard hnew] at hclosed
      cases hclosed
    rw [hk.receiver, hk.log, hnew, List.append_nil]
    exact ⟨hclosed, hdata⟩

/-- What stays as it is leaves the receiver's side alone. -/
theorem Kept.same (hrun : s.producer ≠ .gone) (hreceiver : s'.receiver = s.receiver)
    (hreply : s'.reply = s.reply) (hframes : s'.frames = s.frames) (hqueue : s'.queue = s.queue)
    (hlog : s'.log = s.log) : Kept s s' [] where
  running := hrun
  receiver := hreceiver
  reply := hreply
  frames := hframes
  queue := by rw [hqueue, List.append_nil]
  log := by rw [hlog, List.append_nil]
  heard h := absurd rfl h

theorem good_sendBuffered (h : s.Good) (last : Bool) (hrun : s.producer = .producing) :
    (s.sendBuffered last).Good := by
  have hgone : s.producer ≠ .gone := by simp [hrun]
  have hside (hopen : s.receiver.isOpen = true) :
      s.result = none ∧ AllData s.log ∧ bytesOf s.log ++ s.buf = s.written := by
    have hsending := h.sending hopen
    unfold Sending at hsending
    rwa [hrun] at hsending
  unfold sendBuffered
  by_cases hbuf : s.buf = []
  · rw [if_pos hbuf]
    cases last with
    | true =>
      refine h.of_kept (.same hgone rfl rfl rfl rfl rfl) (fun hopen => ?_) h.sent (.inl ⟨_, rfl⟩)
      obtain ⟨-, hdata, hbytes⟩ := hside hopen
      rw [hbuf, List.append_nil] at hbytes
      exact ⟨rfl, hdata, fun _ => hbytes⟩
    | false =>
      refine h.of_kept (.same hgone rfl rfl rfl rfl rfl) hside h.sent ?_
      rcases h.result with ⟨r, hr⟩ | hr | hr
      · rw [hrun] at hr
        cases hr
      · exact absurd hr hgone
      · exact .inr (.inr hr)
  · rw [if_neg hbuf]
    refine h.of_kept (.same hgone rfl rfl rfl rfl rfl) (fun hopen => ?_) h.sent ?_
    · obtain ⟨hresult, hdata, hbytes⟩ := hside hopen
      exact ⟨hresult, hdata, rfl, hbytes⟩
    · rcases h.result with ⟨r, hr⟩ | hr | hr
      · rw [hrun] at hr
        cases hr
      · exact absurd hr hgone
      · exact .inr (.inr hr)

theorem good_write (h : s.Good) (data : Bytes) (hrun : s.producer = .producing) :
    ((s.wrote data).write data).Good := by
  have hgone : s.producer ≠ .gone := by simp [hrun]
  have hgrown : Good { s with buf := s.buf ++ data, written := s.written ++ data } := by
    refine h.of_kept (.same hgone rfl rfl rfl rfl rfl) (fun hopen => ?_)
      (h.sent.trans (List.prefix_append _ _)) h.result
    have hsending := h.sending hopen
    unfold Sending at hsending ⊢
    rw [hrun] at hsending ⊢
    obtain ⟨hresult, hdata, hbytes⟩ := hsending
    refine ⟨hresult, hdata, ?_⟩
    rw [← hbytes, List.append_assoc]
  unfold write wrote
  dsimp only
  split
  · exact good_sendBuffered hgrown false hrun
  · exact hgrown

theorem good_fails (h : s.Good) (why : Text) (hrun : s.producer = .producing) :
    (s.close (.error why)).Good := by
  refine h.of_kept (.same (by simp [hrun]) rfl rfl rfl rfl rfl) (fun hopen => ?_) h.sent
    (.inl ⟨_, rfl⟩)
  have hsending := h.sending hopen
  unfold Sending at hsending
  rw [hrun] at hsending
  exact ⟨rfl, hsending.2.1, nofun⟩

theorem good_sends (h : s.Good) {chunk : Bytes} {last : Bool}
    (hrun : s.producer = .sending chunk last) (hopen : s.receiver.isOpen = true) :
    ((s.put (.data chunk)).afterSend last).Good := by
  have hsending := h.sending hopen
  unfold Sending at hsending
  rw [hrun] at hsending
  obtain ⟨hresult, hdata, hbuf, hbytes⟩ := hsending
  have hkept (t : Streaming) (hreceiver : t.receiver = s.receiver) (hreply : t.reply = s.reply)
      (hframes : t.frames = s.frames) (hqueue : t.queue = s.queue ++ [.data chunk])
      (hlog : t.log = s.log ++ [.data chunk]) : Kept s t [.data chunk] :=
    ⟨by simp [hrun], hreceiver, hreply, hframes, hqueue, hlog, fun _ => hopen⟩
  have hlog : AllData (s.log ++ [.data chunk]) := by simp [hdata]
  have hsent : bytesOf (s.log ++ [.data chunk]) = s.written := by simpa using hbytes
  cases last with
  | true =>
    refine h.of_kept (hkept _ rfl rfl rfl rfl rfl) (fun _ => ⟨rfl, hlog, fun _ => hsent⟩)
      (hsent ▸ List.prefix_rfl) (.inl ⟨_, rfl⟩)
  | false =>
    refine h.of_kept (hkept _ rfl rfl rfl rfl rfl) (fun _ => ⟨hresult, hlog, ?_⟩)
      (hsent ▸ List.prefix_rfl) (.inr (.inr hresult))
    show bytesOf (s.log ++ [.data chunk]) ++ s.buf = s.written
    rw [hbuf, List.append_nil, hsent]

theorem good_sendFails (h : s.Good) {chunk : Bytes} {last : Bool}
    (hrun : s.producer = .sending chunk last) (hclosed : s.receiver.isOpen = false) :
    (s.sendFails last).Good := by
  have hgone : s.producer ≠ .gone := by simp [hrun]
  have hnever {P : Prop} (hopen : s.receiver.isOpen = true) : P := by
    rw [hclosed] at hopen
    cases hopen
  unfold sendFails
  cases last with
  | true => exact h.of_kept (.same hgone rfl rfl rfl rfl rfl) hnever h.sent (.inl ⟨_, rfl⟩)
  | false =>
    refine h.of_kept (.same hgone rfl rfl rfl rfl rfl) hnever h.sent ?_
    rcases h.result with ⟨r, hr⟩ | hr | hr
    · rw [hrun] at hr
      cases hr
    · exact absurd hr hgone
    · exact .inr (.inr hr)

theorem good_closes (h : s.Good) {result : Except Text Unit} (hrun : s.producer = .closing result)
    (hopen : s.receiver.isOpen = true) :
    Good { s.put (lastChunk result) with producer := .gone } := by
  have hsending := h.sending hopen
  unfold Sending at hsending
  rw [hrun] at hsending
  obtain ⟨hresult, hdata, hbytes⟩ := hsending
  have hkept : Kept s { s.put (lastChunk result) with producer := .gone } [lastChunk result] :=
    ⟨by simp [hrun], rfl, rfl, rfl, rfl, rfl, fun _ => hopen⟩
  refine h.of_kept hkept (fun _ => .inr ⟨s.log, result, hresult, rfl, hdata, hbytes⟩) ?_ (.inr (.inl rfl))
  show bytesOf (s.log ++ [lastChunk result]) <+: s.written
  rw [bytesOf_append, bytesOf_last, List.append_nil]
  exact h.sent

/-- A producer that goes without a last message. -/
theorem good_gone (h : s.Good) (hrun : s.producer ≠ .gone) : Good { s with producer := .gone } := by
  refine h.of_kept (.same hrun rfl rfl rfl rfl rfl) (fun hopen => .inl ?_) h.sent (.inr (.inl rfl))
  have hsending := h.sending hopen
  unfold Sending at hsending
  cases hp : s.producer with
  | producing => exact (hp ▸ hsending).2.1
  | sending chunk last => exact (hp ▸ hsending).2.1
  | closing r => exact (hp ▸ hsending).2.1
  | gone => exact absurd hp hrun

/-- A message of the log carries data, or is the producer's last one. -/
theorem Sending.message (hs : s.Sending) {ms rest : List Chunk} {m : Chunk}
    (hlog : s.log = ms ++ m :: rest) :
    (∃ b, m = .data b)
      ∨ ∃ r, m = lastChunk r ∧ rest = [] ∧ s.producer = .gone ∧ s.result = some r
        ∧ (r = .ok () → bytesOf ms = s.written) := by
  have hall (h : AllData s.log) : ∃ b, m = .data b :=
    h m (hlog ▸ List.mem_append_right ms List.mem_cons_self)
  unfold Sending at hs
  cases hp : s.producer with
  | producing => exact .inl (hall (hp ▸ hs).2.1)
  | sending chunk last => exact .inl (hall (hp ▸ hs).2.1)
  | closing r => exact .inl (hall (hp ▸ hs).2.1)
  | gone =>
    rw [hp] at hs
    rcases hs with h | ⟨ns, r, hresult, hlog', hns, hbytes⟩
    · exact .inl (hall h)
    · rw [hlog] at hlog'
      rcases List.eq_nil_or_concat rest with rfl | ⟨rest, last, rfl⟩
      · obtain ⟨rfl, hm⟩ := List.append_inj' hlog' rfl
        exact .inr ⟨r, (List.cons.inj hm).1, rfl, rfl, hresult, hbytes⟩
      · have hinit : ms ++ m :: rest = ns := by
          have hassoc : ms ++ m :: (rest ++ [last]) = (ms ++ m :: rest) ++ [last] := by simp
          rw [List.concat_eq_append, hassoc] at hlog'
          exact (List.append_inj' hlog' rfl).1
        exact .inl (hns m (hinit ▸ List.mem_append_right ms List.mem_cons_self))

theorem good_responds (h : s.Good) {m : Chunk} {rest : List Chunk}
    (hwait : s.receiver = .waiting) (hqueue : s.queue = m :: rest) : (s.respond m rest).Good := by
  have hopen : s.receiver.isOpen = true := by rw [hwait]; rfl
  have hsending := h.sending hopen
  have hreceiving := h.receiving
  unfold Receiving at hreceiving
  rw [hwait] at hreceiving
  obtain ⟨hreply, hframes, hlog⟩ := hreceiving
  have hdelivered : s.delivered = [] := by rw [Streaming.delivered, hframes]; rfl
  rw [hqueue] at hlog
  have hquiet (hended : BodyFrame.ended ∈ s.frames) : s.producer = .gone ∧ s.Over := by
    rw [hframes] at hended
    cases hended
  have hfirst : s.log = [] ++ m :: rest := hlog.symm
  -- The first message decides the response: bytes begin a body, an end or an error is all of it.
  rcases hsending.message hfirst with
    ⟨b, rfl⟩ | ⟨r, rfl, rfl, hgone, hresult, hbytes⟩
  · exact {
      sending := fun _ => hsending
      receiving := ⟨rfl, rfl, hframes, hlog.symm⟩
      sent := h.sent
      delivered := h.delivered
      finished := hquiet
      result := h.result
      started := fun _ => ⟨b, rest, hlog.symm⟩
      complete := nofun
      failed := nofun }
  · rcases r with why | ⟨⟨⟩⟩
    · exact {
        sending := nofun
        receiving := trivial
        sent := h.sent
        delivered := h.delivered
        finished := fun hended => absurd hended (by simp [respond, lastChunk, hframes])
        result := h.result
        started := nofun
        complete := nofun
        failed := fun _ => ⟨rfl, fun b hb => by
          change Chunk.data b ∈ s.log at hb
          rw [← hlog] at hb
          cases List.mem_singleton.mp hb⟩ }
    · exact {
        sending := nofun
        receiving := ⟨rfl, hgone, hresult, hdelivered.trans (hbytes rfl)⟩
        sent := h.sent
        delivered := h.delivered
        finished := fun hended => absurd hended (by simp [respond, lastChunk, hframes])
        result := h.result
        started := nofun
        complete := fun _ => ⟨hgone, hresult⟩
        failed := nofun }

/-- A step of the receiver: it leaves the producer as it is. -/
structure Heard (s s' : Streaming) : Prop where
  producer : s'.producer = s.producer
  result : s'.result = s.result
  buf : s'.buf = s.buf
  written : s'.written = s.written
  log : s'.log = s.log
  opened : s'.receiver.isOpen = true → s.receiver.isOpen = true

/-- **A step of the receiver keeps what holds**, when it does so on its own side. -/
theorem Good.of_heard (h : s.Good) (hk : Heard s s') (hreceiving : s'.Receiving)
    (hdelivered : s'.delivered <+: bytesOf s.log)
    (hover : .ended ∈ s'.frames → s.producer = .gone ∧ s'.Over)
    (hstarted : s'.reply = some .started → s.reply = some .started)
    (hcomplete : s'.reply = some .complete → s.reply = some .complete)
    (hfailed : s'.reply = some .failed → s'.receiver.isOpen = false ∧ ∀ b, .data b ∉ s.log) :
    s'.Good where
  sending hopen := by
    have hsending := h.sending (hk.opened hopen)
    unfold Sending at hsending ⊢
    rwa [hk.producer, hk.result, hk.buf, hk.written, hk.log]
  receiving := hreceiving
  sent := by rw [hk.log, hk.written]; exact h.sent
  delivered := by rw [hk.log]; exact hdelivered
  finished hended := by rw [hk.producer]; exact hover hended
  result := by rw [hk.producer, hk.result]; exact h.result
  started hreply := by rw [hk.log]; exact h.started (hstarted hreply)
  complete hreply := by rw [hk.producer, hk.result]; exact h.complete (hcomplete hreply)
  failed hreply := by rw [hk.log]; exact hfailed hreply

theorem delivered_append (s : Streaming) (f : BodyFrame) :
    ({ s with frames := s.frames ++ [f] } : Streaming).delivered = s.delivered ++ f.bytes := by
  simp [Streaming.delivered]

/-- A body answers only a started download. -/
theorem Good.not_failed (h : s.Good) (hopen : s.receiver.isOpen = true) :
    s.reply ≠ some .failed := by
  intro hreply
  rw [(h.failed hreply).1] at hopen
  cases hopen

theorem good_respondsError (h : s.Good) (hwait : s.receiver = .waiting) (hqueue : s.queue = []) :
    Good { s with receiver := .dropped, reply := some .failed } := by
  have hreceiving := h.receiving
  unfold Receiving at hreceiving
  rw [hwait] at hreceiving
  obtain ⟨hreply, hframes, hlog⟩ := hreceiving
  refine h.of_heard ⟨rfl, rfl, rfl, rfl, rfl, nofun⟩ trivial h.delivered h.finished nofun nofun
    fun _ => ⟨rfl, fun b hb => ?_⟩
  rw [← hlog, hqueue] at hb
  cases hb

theorem good_pollFirst (h : s.Good) {first : Bytes} {done : Bool}
    (hbody : s.receiver = .body (some first) done) :
    Good { s with receiver := .body none done, frames := s.frames ++ [.data first] } := by
  have hopen : s.receiver.isOpen = true := by rw [hbody]; rfl
  have hreceiving := h.receiving
  unfold Receiving at hreceiving
  rw [hbody] at hreceiving
  obtain ⟨hreply, rfl, hframes, hlog⟩ := hreceiving
  refine h.of_heard ⟨rfl, rfl, rfl, rfl, rfl, fun _ => hopen⟩ ⟨hreply, first, [], ?_, hlog⟩ ?_ ?_ id id
    fun hfailed => absurd hfailed (h.not_failed hopen)
  · rw [hframes]
    rfl
  · rw [hlog, hframes]
    exact ⟨bytesOf s.queue, by simp [Streaming.delivered, BodyFrame.bytes, bytesOf, Chunk.bytes]⟩
  · intro hended
    rw [hframes] at hended
    cases List.mem_singleton.mp hended

theorem good_pollTakes (h : s.Good) {m : Chunk} {rest : List Chunk}
    (hbody : s.receiver = .body none false) (hqueue : s.queue = m :: rest) :
    (s.take m rest).Good := by
  have hopen : s.receiver.isOpen = true := by rw [hbody]; rfl
  have hreceiving := h.receiving
  unfold Receiving at hreceiving
  rw [hbody] at hreceiving
  obtain ⟨hreply, first, bs, hframes, hlog⟩ := hreceiving
  have hbytes : s.delivered = bytesOf ((first :: bs).map Chunk.data) := by
    rw [Streaming.delivered, hframes, bytesOf, List.flatMap_map, List.flatMap_map]
    rfl
  -- the body has bytes only, so far
  have hquiet : .ended ∉ s.frames := by
    rw [hframes]
    intro hended
    obtain ⟨b, -, hb⟩ := List.mem_map.mp hended
    cases hb
  have hfailed (hfailed : s.reply = some .failed) : False := h.not_failed hopen hfailed
  rw [hqueue] at hlog
  rcases (h.sending hopen).message hlog with
    ⟨b, rfl⟩ | ⟨r, rfl, rfl, hgone, hresult, hall⟩
  · refine h.of_heard ⟨rfl, rfl, rfl, rfl, rfl, fun _ => hopen⟩ ?_ ?_ ?_ id id
      fun hreply => (hfailed hreply).elim
    · show Receiving { s with queue := rest, frames := s.frames ++ [.data b] }
      unfold Receiving
      rw [hbody]
      refine ⟨hreply, first, bs ++ [b], ?_, ?_⟩
      · rw [hframes]
        simp
      · rw [hlog]
        simp
    · refine (delivered_append s (.data b)).symm ▸ ?_
      rw [hbytes, hlog]
      exact ⟨bytesOf rest, by simp [BodyFrame.bytes, bytesOf, Chunk.bytes]⟩
    · intro hended
      rcases List.mem_append.mp hended with hended | hended
      · exact absurd hended hquiet
      · cases List.mem_singleton.mp hended
  · have hstart : ∃ first' ms, s.log = .data first' :: ms := ⟨first, _, hlog⟩
    rcases r with why | ⟨⟨⟩⟩
    -- an error is the last frame
    · have hover : Over (s.take (.fail why) []) := .inl ⟨why, List.mem_append_right _ (by simp)⟩
      refine h.of_heard ⟨rfl, rfl, rfl, rfl, rfl, fun _ => hopen⟩
        ⟨hreply, hgone, rfl, hover, hstart⟩ ?_ (fun _ => ⟨hgone, hover⟩) id id
        fun hreply => (hfailed hreply).elim
      refine (delivered_append s (.error why)).symm ▸ ?_
      rw [BodyFrame.bytes, List.append_nil]
      exact h.delivered
    · have hdelivered : (s.take .done []).delivered = s.delivered := by
        refine (delivered_append s .ended).trans ?_
        rw [BodyFrame.bytes, List.append_nil]
      have hover : Over (s.take .done []) :=
        .inr ⟨hresult, hdelivered.trans (hbytes.trans (hall rfl))⟩
      refine h.of_heard ⟨rfl, rfl, rfl, rfl, rfl, fun _ => hopen⟩
        ⟨hreply, hgone, rfl, hover, hstart⟩ ?_ (fun _ => ⟨hgone, hover⟩) id id
        fun hreply => (hfailed hreply).elim
      exact hdelivered.symm ▸ h.delivered

/-- A frame without data, from a body that is over. -/
theorem good_overFrame (h : s.Good) (t : Streaming) (hk : Heard s t) {f : BodyFrame}
    (hframes : t.frames = s.frames ++ [f]) (hf : f.bytes = []) (hreceiving : t.Receiving)
    (hover : s.producer = .gone ∧ t.Over) (hreply : t.reply = s.reply)
    (hfailed : s.reply ≠ some .failed) : t.Good := by
  refine h.of_heard hk hreceiving ?_ (fun _ => hover) (hreply ▸ id) (hreply ▸ id) ?_
  · have hsame : t.delivered = s.delivered := by
      rw [Streaming.delivered, hframes, List.flatMap_append, List.flatMap_singleton, hf,
        List.append_nil]
      rfl
    exact hsame ▸ h.delivered
  · intro hreply'
    exact absurd (hreply ▸ hreply') hfailed

theorem Over.frame (h : s.Over) {f : BodyFrame} (hf : f.bytes = []) :
    Over { s with frames := s.frames ++ [f] } := by
  rcases h with ⟨e, he⟩ | ⟨hresult, hbytes⟩
  · exact .inl ⟨e, List.mem_append_left _ he⟩
  · exact .inr ⟨hresult, by rw [delivered_append, hf, List.append_nil]; exact hbytes⟩

theorem good_pollDone (h : s.Good) (hbody : s.receiver = .body none true) :
    Good { s with frames := s.frames ++ [.ended] } := by
  have hopen : s.receiver.isOpen = true := by rw [hbody]; rfl
  have hreceiving := h.receiving
  unfold Receiving at hreceiving
  rw [hbody] at hreceiving
  obtain ⟨hreply, hgone, hqueue, hover, hlog⟩ := hreceiving
  have hover' := hover.frame (f := .ended) rfl
  refine good_overFrame h _ ⟨rfl, rfl, rfl, rfl, rfl, fun _ => hopen⟩ rfl rfl ?_ ⟨hgone, hover'⟩ rfl
    (h.not_failed hopen)
  unfold Receiving
  rw [hbody]
  exact ⟨hreply, hgone, hqueue, hover', hlog⟩

theorem good_pollEarly (h : s.Good) (hbody : s.receiver = .body none false) (hqueue : s.queue = [])
    (hgone : s.producer = .gone) (e : Text) :
    Good { s with receiver := .body none true, frames := s.frames ++ [.error e] } := by
  have hopen : s.receiver.isOpen = true := by rw [hbody]; rfl
  have hreceiving := h.receiving
  unfold Receiving at hreceiving
  rw [hbody] at hreceiving
  obtain ⟨hreply, first, bs, -, hlog⟩ := hreceiving
  have hover : Over { s with receiver := .body none true, frames := s.frames ++ [.error e] } :=
    .inl ⟨e, List.mem_append_right _ (by simp)⟩
  exact good_overFrame h _ ⟨rfl, rfl, rfl, rfl, rfl, fun _ => hopen⟩ rfl rfl
    ⟨hreply, hgone, hqueue, hover, first, _, hlog⟩ ⟨hgone, hover⟩ rfl (h.not_failed hopen)

theorem good_pollFull (h : s.Good) (hfull : s.receiver = .full) :
    Good { s with frames := s.frames ++ [.ended] } := by
  have hreceiving := h.receiving
  unfold Receiving at hreceiving
  rw [hfull] at hreceiving
  obtain ⟨hreply, hgone, hresult, hbytes⟩ := hreceiving
  have hover : s.Over := .inr ⟨hresult, hbytes⟩
  have hover' := hover.frame (f := .ended) rfl
  refine good_overFrame h _ ⟨rfl, rfl, rfl, rfl, rfl, id⟩ rfl rfl ?_ ⟨hgone, hover'⟩ rfl
    (by simp [hreply])
  unfold Receiving
  rw [hfull]
  exact ⟨hreply, hgone, hresult,
    (delivered_append s .ended).trans ((List.append_nil _).trans hbytes)⟩

theorem good_drops (h : s.Good) (hopen : s.receiver.isOpen = true) :
    Good { s with receiver := .dropped, queue := [] } :=
  h.of_heard ⟨rfl, rfl, rfl, rfl, rfl, nofun⟩ trivial h.delivered h.finished id id
    fun hreply => absurd hreply (h.not_failed hopen)

/-- **One step of either side keeps what holds.** -/
theorem good_step {a : Act} (h : s.Good) (step : Step s a s') : s'.Good := by
  cases step with
  | write data hrun => exact good_write h data hrun
  | returns hrun => exact good_sendBuffered h true hrun
  | fails why hrun => exact good_fails h why hrun
  | sends chunk last hrun hopen hroom => exact good_sends h hrun hopen
  | sendFails chunk last hrun hclosed => exact good_sendFails h hrun hclosed
  | closes result hrun hopen hroom => exact good_closes h hrun hopen
  | unheard result hrun hclosed => exact good_gone h (by simp [hrun])
  | vanishes hrun => exact good_gone h hrun
  | responds m rest hwait hqueue => exact good_responds h hwait hqueue
  | respondsError hwait hqueue hgone => exact good_respondsError h hwait hqueue
  | pollFirst first done hbody => exact good_pollFirst h hbody
  | pollDone hbody => exact good_pollDone h hbody
  | pollTakes m rest hbody hqueue => exact good_pollTakes h hbody hqueue
  | pollEarly hbody hqueue hgone => exact good_pollEarly h hbody hqueue hgone _
  | pollFull hfull => exact good_pollFull h hfull
  | drops hopen => exact good_drops h hopen

theorem good_start : start.Good where
  sending _ := ⟨rfl, allData_nil, rfl⟩
  receiving := ⟨rfl, rfl, rfl⟩
  sent := List.prefix_rfl
  delivered := List.prefix_rfl
  finished := nofun
  result := .inr (.inr rfl)
  started := nofun
  complete := nofun
  failed := nofun

/-- **It holds in every state that can be reached**, whatever the order of the steps. -/
theorem good_of_reachable (h : Reachable s) : s.Good := by
  induction h with
  | start => exact good_start
  | next _ step ih => exact good_step ih step

/-! ### After a failure -/

/-- The producer has failed, or is gone without a result. -/
def Failing (s : Streaming) : Prop :=
  (∃ why, s.result = some (.error why)) ∨ s.producer = .gone ∧ s.result = none

/-- Whether a chunk went into the channel. -/
def Begun (s : Streaming) : Prop := ∃ b, .data b ∈ s.log

/-- The failure has been told: by an error in the body when a chunk was sent, else by an error
    response. -/
def Told (s : Streaming) : Prop :=
  (s.Begun → ∃ e, .error e ∈ s.frames) ∧ (¬ s.Begun → s.reply = some .failed)

/-- How many steps there are at most until a failure is told. -/
def distance (s : Streaming) : Nat :=
  (match s.producer with
    | .closing _ => 2
    | _ => 0)
  + s.queue.length
  + match s.receiver with
    | .waiting => 2
    | .body (some _) _ => 2
    | .body none false => 1
    | _ => 0

/-- A producer that has failed has only its last message to send. -/
theorem Failing.producer (h : s.Good) (hf : s.Failing) :
    (∃ r, s.producer = .closing r) ∨ s.producer = .gone := by
  rcases h.result with hr | hr | hr
  · exact .inl hr
  · exact .inr hr
  · rcases hf with ⟨why, hwhy⟩ | ⟨hgone, -⟩
    · rw [hr] at hwhy
      cases hwhy
    · exact .inr hgone

theorem Failing.not_ok (hf : s.Failing) : s.result ≠ some (.ok ()) := by
  intro hok
  rcases hf with ⟨why, hwhy⟩ | ⟨-, hnone⟩
  · rw [hok] at hwhy
    cases hwhy
  · rw [hok] at hnone
    cases hnone

/-- A failed download that has begun has an error in its body, if that is over. -/
theorem Failing.error_of_over (hf : s.Failing) (hover : s.Over) : ∃ e, .error e ∈ s.frames :=
  hover.resolve_right fun h => hf.not_ok h.1

/-- Nothing goes into the channel after a failure, but for the last message. -/
theorem Failing.step {a : Act} (h : s.Good) (hf : s.Failing) (step : Step s a s') :
    s'.Failing ∧ (s'.Begun ↔ s.Begun) := by
  have hbusy : s.producer ≠ .producing ∧ ∀ c l, s.producer ≠ .sending c l := by
    rcases hf.producer h with ⟨r, hr⟩ | hr <;> simp [hr]
  cases step with
  | write data hrun => exact absurd hrun hbusy.1
  | returns hrun => exact absurd hrun hbusy.1
  | fails why hrun => exact absurd hrun hbusy.1
  | sends chunk last hrun hopen hroom => exact absurd hrun (hbusy.2 chunk last)
  | sendFails chunk last hrun hclosed => exact absurd hrun (hbusy.2 chunk last)
  | closes result hrun hopen hroom =>
    refine ⟨hf.imp id fun hgone => ⟨rfl, hgone.2⟩, ?_⟩
    have hlast : ∀ b, Chunk.data b ≠ lastChunk result := by
      intro b
      rcases result with e | ⟨⟨⟩⟩ <;> exact nofun
    simp [Begun, put, hlast]
  | unheard result hrun hclosed => exact ⟨hf.imp id fun hgone => ⟨rfl, hgone.2⟩, Iff.rfl⟩
  | vanishes hrun => exact ⟨hf.imp id fun hgone => ⟨rfl, hgone.2⟩, Iff.rfl⟩
  | responds m rest hwait hqueue => cases m <;> exact ⟨hf, Iff.rfl⟩
  | respondsError hwait hqueue hgone => exact ⟨hf, Iff.rfl⟩
  | pollFirst first done hbody => exact ⟨hf, Iff.rfl⟩
  | pollDone hbody => exact ⟨hf, Iff.rfl⟩
  | pollTakes m rest hbody hqueue => cases m <;> exact ⟨hf, Iff.rfl⟩
  | pollEarly hbody hqueue hgone => exact ⟨hf, Iff.rfl⟩
  | pollFull hfull => exact ⟨hf, Iff.rfl⟩
  | drops hopen => exact ⟨hf, Iff.rfl⟩

/-- Told once is told for good. -/
theorem Told.step {a : Act} (h : s.Good) (hf : s.Failing) (ht : s.Told) (step : Step s a s') :
    s'.Told := by
  obtain ⟨-, hbegun⟩ := hf.step h step
  have hkeep (hframes : ∀ f ∈ s.frames, f ∈ s'.frames)
      (hreply : s.reply = some .failed → s'.reply = some .failed) : s'.Told := by
    refine ⟨fun hb => ?_, fun hb => hreply (ht.2 (mt hbegun.mpr hb))⟩
    obtain ⟨e, he⟩ := ht.1 (hbegun.mp hb)
    exact ⟨e, hframes _ he⟩
  have hbusy : s.producer ≠ .producing ∧ ∀ c l, s.producer ≠ .sending c l := by
    rcases hf.producer h with ⟨r, hr⟩ | hr <;> simp [hr]
  cases step with
  | write data hrun => exact absurd hrun hbusy.1
  | returns hrun => exact absurd hrun hbusy.1
  | fails why hrun => exact absurd hrun hbusy.1
  | sends chunk last hrun hopen hroom => exact absurd hrun (hbusy.2 chunk last)
  | sendFails chunk last hrun hclosed => exact absurd hrun (hbusy.2 chunk last)
  | closes result hrun hopen hroom => exact hkeep (fun _ => id) id
  | unheard result hrun hclosed => exact hkeep (fun _ => id) id
  | vanishes hrun => exact hkeep (fun _ => id) id
  | responds m rest hwait hqueue =>
    -- nothing has been told while the first message is waited for
    have hreceiving := h.receiving
    unfold Receiving at hreceiving
    rw [hwait] at hreceiving
    obtain ⟨hreply, hframes, -⟩ := hreceiving
    by_cases hb : s.Begun
    · obtain ⟨e, he⟩ := ht.1 hb
      rw [hframes] at he
      cases he
    · rw [ht.2 hb] at hreply
      cases hreply
  | respondsError hwait hqueue hgone => exact hkeep (fun _ => id) fun _ => rfl
  | pollFirst first done hbody => exact hkeep (fun _ => List.mem_append_left _) id
  | pollDone hbody => exact hkeep (fun _ => List.mem_append_left _) id
  | pollTakes m rest hbody hqueue =>
    cases m <;> exact hkeep (fun _ => List.mem_append_left _) id
  | pollEarly hbody hqueue hgone => exact hkeep (fun _ => List.mem_append_left _) id
  | pollFull hfull => exact hkeep (fun _ => List.mem_append_left _) id
  | drops hopen => exact hkeep (fun _ => id) id

/-- A body that is over has told the failure. -/
theorem Failing.told_of_over (hf : s.Failing) (hover : s.Over) (hb : s.Begun) : s.Told :=
  ⟨fun _ => hf.error_of_over hover, fun hn => absurd hb hn⟩

/-- A failing download has no last message but its failure. -/
theorem Failing.message (h : s.Good) (hf : s.Failing) (hopen : s.receiver.isOpen = true)
    {ms rest : List Chunk} {m : Chunk} (hlog : s.log = ms ++ m :: rest) :
    (∃ b, m = .data b) ∨ ∃ why, m = .fail why ∧ rest = [] := by
  rcases (h.sending hopen).message hlog with hdata | ⟨r, rfl, rfl, -, hresult, -⟩
  · exact .inl hdata
  · rcases r with why | ⟨⟨⟩⟩
    · exact .inr ⟨why, rfl, rfl⟩
    · exact absurd hresult hf.not_ok

/-- **Each step brings the error nearer**, until it is told. -/
theorem distance_lt_of_step {a : Act} (h : s.Good) (hf : s.Failing) (hopen : s.receiver.isOpen = true)
    (hnot : ¬ s.Told) (ha : a ≠ .client) (step : Step s a s') :
    s'.Told ∨ s'.receiver.isOpen = true ∧ s'.distance < s.distance := by
  -- A producer that is failing neither writes nor returns.
  have hbusy : s.producer ≠ .producing ∧ ∀ c l, s.producer ≠ .sending c l := by
    rcases hf.producer h with ⟨r, hr⟩ | hr <;> simp [hr]
  have hreceiving := h.receiving
  unfold Receiving at hreceiving
  cases step with
  | write data hrun => exact absurd hrun hbusy.1
  | returns hrun => exact absurd hrun hbusy.1
  | fails why hrun => exact absurd hrun hbusy.1
  | sends chunk last hrun hopen' hroom => exact absurd hrun (hbusy.2 chunk last)
  | sendFails chunk last hrun hclosed => exact absurd hrun (hbusy.2 chunk last)
  | closes result hrun hopen' hroom =>
    refine .inr ⟨hopen, ?_⟩
    unfold distance
    simp only [hrun, put, List.length_append, List.length_singleton]
    omega
  | unheard result hrun hclosed =>
    rw [hopen] at hclosed
    cases hclosed
  | vanishes hrun =>
    obtain ⟨r, hr⟩ := (hf.producer h).resolve_right hrun
    refine .inr ⟨hopen, ?_⟩
    unfold distance
    simp only [hr]
    omega
  | responds m rest hwait hqueue =>
    rw [hwait] at hreceiving
    obtain ⟨hreply, hframes, hlog⟩ := hreceiving
    -- the first message: bytes, or the error that the response then is
    have hfirst : s.log = [] ++ m :: rest := hlog.symm.trans hqueue
    rcases hf.message h hopen hfirst with ⟨b, rfl⟩ | ⟨why, rfl, rfl⟩
    · refine .inr ⟨rfl, ?_⟩
      unfold distance
      simp only [hwait, hqueue, respond, List.length_cons]
      omega
    · have hnone : ¬ s.Begun := by
        rintro ⟨b, hb⟩
        rw [hfirst] at hb
        cases List.mem_singleton.mp hb
      exact .inl ⟨fun hb => absurd hb hnone, fun _ => rfl⟩
  | respondsError hwait hqueue hgone =>
    rw [hwait] at hreceiving
    obtain ⟨-, -, hlog⟩ := hreceiving
    have hnone : ¬ s.Begun := by
      rintro ⟨b, hb⟩
      rw [← hlog, hqueue] at hb
      cases hb
    exact .inl ⟨fun hb => absurd hb hnone, fun _ => rfl⟩
  | pollFirst first done hbody =>
    rw [hbody] at hreceiving
    obtain ⟨-, rfl, -⟩ := hreceiving
    refine .inr ⟨rfl, ?_⟩
    unfold distance
    simp only [hbody]
    omega
  | pollDone hbody =>
    rw [hbody] at hreceiving
    obtain ⟨-, -, -, hover, first, ms, hlog⟩ := hreceiving
    have hb : s.Begun := ⟨first, hlog ▸ List.mem_cons_self⟩
    exact absurd (hf.told_of_over hover hb) hnot
  | pollTakes m rest hbody hqueue =>
    rw [hbody] at hreceiving
    obtain ⟨-, first, bs, hframes, hlog⟩ := hreceiving
    rw [hqueue] at hlog
    -- a later message: bytes, or the error that cuts the body short
    rcases hf.message h hopen hlog with ⟨b, rfl⟩ | ⟨why, rfl, rfl⟩
    · refine .inr ⟨hbody ▸ rfl, ?_⟩
      unfold distance
      simp only [hbody, hqueue, take, List.length_cons]
      omega
    · have hb : s.Begun := ⟨first, by rw [hlog]; simp⟩
      exact .inl ⟨fun _ => ⟨why, List.mem_append_right _ (by simp)⟩, fun hn => absurd hb hn⟩
  | pollEarly hbody hqueue hgone =>
    rw [hbody] at hreceiving
    obtain ⟨-, first, bs, hframes, hlog⟩ := hreceiving
    have hb : s.Begun := ⟨first, by rw [hlog]; simp⟩
    exact .inl ⟨fun _ => ⟨_, List.mem_append_right _ List.mem_cons_self⟩, fun hn => absurd hb hn⟩
  | pollFull hfull =>
    rw [hfull] at hopen
    cases hopen
  | drops hopen' => exact absurd rfl ha

/-- **A failing download can go on**, as long as the client stays. -/
theorem Failing.exists_step (h : s.Good) (hf : s.Failing) (hopen : s.receiver.isOpen = true) :
    ∃ a s', a ≠ .client ∧ Step s a s' := by
  have hreceiving := h.receiving
  unfold Receiving at hreceiving
  -- the connection can step when a message waits, or when none will come
  have hconnection (hready : s.queue ≠ [] ∨ s.producer = .gone) :
      ∃ a s', a ≠ .client ∧ Step s a s' := by
    cases hr : s.receiver with
    | waiting =>
      cases hq : s.queue with
      | nil => exact ⟨.connection, _, by decide, .respondsError hr hq (hready.resolve_left (not_not.mpr hq))⟩
      | cons m rest => exact ⟨.connection, _, by decide, .responds m rest hr hq⟩
    | body first done =>
      cases first with
      | some first => exact ⟨.connection, _, by decide, .pollFirst first done hr⟩
      | none =>
        cases done with
        | false =>
          cases hq : s.queue with
          | nil => exact ⟨.connection, _, by decide, .pollEarly hr hq (hready.resolve_left (not_not.mpr hq))⟩
          | cons m rest => exact ⟨.connection, _, by decide, .pollTakes m rest hr hq⟩
        | true => exact ⟨.connection, _, by decide, .pollDone hr⟩
    | full =>
      rw [hr] at hopen
      cases hopen
    | dropped =>
      rw [hr] at hopen
      cases hopen
  rcases hf.producer h with ⟨r, hr⟩ | hr
  · by_cases hroom : s.queue.length < chunksInFlight
    · exact ⟨.producer, _, by decide, .closes r hr hopen hroom⟩
    · apply hconnection
      left
      intro hempty
      rw [hempty] at hroom
      exact hroom (by decide)
  · exact hconnection (.inr hr)

/-- Steps of the producer and the connection, while the client stays. -/
inductive Run : Nat → Streaming → Streaming → Prop
  | refl (s : Streaming) : Run 0 s s
  | next {n : Nat} {s t t' : Streaming} {a : Act} (run : Run n s t) (ha : a ≠ .client)
      (step : Step t a t') : Run (n + 1) s t'

/-- A run after a failure tells it, or has brought it nearer with each step. -/
theorem Run.told_or {n : Nat} {t : Streaming} (h : s.Good) (hf : s.Failing)
    (hopen : s.receiver.isOpen = true) (run : Run n s t) :
    t.Good ∧ t.Failing
      ∧ (t.Told ∨ t.receiver.isOpen = true ∧ n + t.distance ≤ s.distance) := by
  induction run with
  | refl s => exact ⟨h, hf, .inr ⟨hopen, by omega⟩⟩
  | next run ha step ih =>
    obtain ⟨hgood, hfailing, htold⟩ := ih h hf hopen
    refine ⟨good_step hgood step, (hfailing.step hgood step).1, ?_⟩
    rename_i n s t t' a
    by_cases hnot : t.Told
    · exact .inl (hnot.step hgood hfailing step)
    · obtain ⟨hopen', hle⟩ := htold.resolve_left hnot
      rcases distance_lt_of_step hgood hfailing hopen' hnot ha step with htold' | ⟨hopen'', hlt⟩
      · exact .inl htold'
      · exact .inr ⟨hopen'', by omega⟩

/-- **A streamed download**, in every state it can come to: what the body has given is a prefix of
    what was written; it has ended without an error only after a success, with all of it; and a
    failure is told, in the body when a chunk was sent and by an error response when none was. -/
theorem streamed_download (h : Reachable s) :
    s.delivered <+: s.written
      ∧ (.ended ∈ s.frames → (∀ e, .error e ∉ s.frames) →
        s.result = some (.ok ()) ∧ s.delivered = s.written)
      ∧ (s.Failing → s.receiver.isOpen = true →
        (∀ n t, Run n s t → s.distance < n → t.Told)
          ∧ ∀ n t, Run n s t → ¬ t.Told → ∃ a t', a ≠ .client ∧ Step t a t')
      ∧ (s.Failing → ¬ s.Begun → s.reply = none ∨ s.reply = some .failed) := by
  have hgood := good_of_reachable h
  refine ⟨hgood.delivered.trans hgood.sent, fun hended hquiet => ?_, fun hf hopen => ⟨?_, ?_⟩,
    fun hf hnone => ?_⟩
  · obtain ⟨-, ⟨e, he⟩ | hall⟩ := hgood.finished hended
    · exact absurd he (hquiet e)
    · exact hall
  · intro n t run hn
    obtain ⟨-, -, htold | ⟨-, hle⟩⟩ := run.told_or hgood hf hopen
    · exact htold
    · omega
  · intro n t run hnot
    obtain ⟨hgood', hf', htold⟩ := run.told_or hgood hf hopen
    exact hf'.exists_step hgood' (htold.resolve_left hnot).1
  · cases hreply : s.reply with
    | none => exact .inl rfl
    | some reply =>
      cases reply with
      | started =>
        obtain ⟨first, ms, hlog⟩ := hgood.started hreply
        exact absurd ⟨first, hlog ▸ List.mem_cons_self⟩ hnone
      | complete => exact absurd (hgood.complete hreply).2 hf.not_ok
      | failed => exact .inr rfl

/-- A producer that fails after three bytes, before any chunk. -/
def failedEarly : Streaming :=
  ((start.wrote [1, 2, 3]).write [1, 2, 3]).close (.error "unreadable".toList)

theorem reachable_failedEarly : Reachable failedEarly :=
  .next (.next .start (.write [1, 2, 3] rfl)) (.fails _ rfl)

theorem streamed_download_failedEarly :
    failedEarly.delivered <+: [1, 2, 3]
      ∧ (∀ n t, Run n failedEarly t → 4 < n → t.Told)
      ∧ (failedEarly.reply = none ∨ failedEarly.reply = some .failed) := by
  have hfailing : failedEarly.Failing := .inl ⟨_, rfl⟩
  have hnone : ¬ failedEarly.Begun := by
    rintro ⟨b, hb⟩
    cases hb
  obtain ⟨hstart, -, htold, hreply⟩ := streamed_download reachable_failedEarly
  exact ⟨hstart, (htold hfailing rfl).1, hreply hfailing hnone⟩

end Streaming

end FlinkExplorer
