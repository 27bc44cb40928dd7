import Tysel.Algorithm.Isolate.Response

/-! What the client has received, what is in the channel and what the producing side has still to
send make up the body, in this order. A checked body ends cleanly only after its pump has
resolved; an unchecked one ends cleanly whenever its sender is dropped. -/

namespace Tysel.Isolate

open List Option Exchange Except ResponseBody Consumer

/-! ## The bytes of a body -/

def leading : List (Option Bytes) → Bytes
  | some bs :: rest => bs ++ leading rest
  | _ => []

def whole : List (Option Bytes) → Option Bytes
  | [] => some []
  | piece :: rest => piece.bind fun bs => (whole rest).map (bs ++ ·)

def StreamChunk.encode : StreamChunk → Option Bytes
  | .bytes content => some content
  | .other => none

/-- The pieces of a body. A stream that fails ends in a piece that has no bytes. -/
def ResponseBody.pieces : ResponseBody → List (Option Bytes)
  | .null => []
  | .single chunk => [chunk.encode]
  | .chunks list => list.map Chunk.encode
  | .stream list closes => list.map StreamChunk.encode ++ if closes then [] else [none]

def ResponseBody.bytes (body : ResponseBody) : Option Bytes := whole body.pieces

def ResponseBody.available (body : ResponseBody) : Bytes := leading body.pieces

/-! ## The invariant -/

def Producer.pieces : Producer → List (Option Bytes)
  | .sending rest => rest.map Chunk.encode
  | .pumping rest closes => rest.map StreamChunk.encode ++ if closes then [] else [none]
  | .settled _ | .done => []

def Exchange.pending (e : Exchange) : Bytes := e.queue.flatten ++ e.writing.getD []

def Producer.live : Producer → Bool
  | .sending _ | .pumping _ _ => true
  | .settled _ | .done => false

def Exchange.matched (e : Exchange) : Bool :=
  match e.producer, e.completion with
  | .sending _, .unchecked => e.writing.isNone && e.sink
  | .pumping _ _, .pending | .settled _, .pending => true
  | .done, .unchecked => e.writing.isNone
  | .done, .sent _ | .done, .dropped => true
  | _, _ => false

/-- The producing side has told, or will tell, the client that the body is complete. -/
def Exchange.Signalled (e : Exchange) : Prop :=
  e.producer = .settled (.ok ()) ∨ e.completion = .sent (.ok ()) ∨
    (e.completion = .unchecked ∧ e.producer = .done)

/-- As long as the client reads: what it has, what is on its way and what is still to be
produced make up the body. -/
structure Flowing (body : ResponseBody) (e : Exchange) : Prop where
  matched : e.matched = true
  sent : e.received ++ e.pending <+: body.available
  available : e.producer.live = true →
    body.available = e.received ++ e.pending ++ leading e.producer.pieces
  bytes : e.producer.live = true →
    body.bytes = (whole e.producer.pieces).map (e.received ++ e.pending ++ ·)
  complete : e.Signalled → e.writing = none ∧ body.bytes = some (e.received ++ e.pending)

/-- What the client may have seen. -/
structure Conveys (body : ResponseBody) (limit : Option ℕ) (e : Exchange) : Prop where
  flowing : e.ended = none → Flowing body e
  received : e.received <+: body.available
  http : e.ended = none → ∀ remaining, e.consumer = .http remaining →
    limit = some (e.received.length + remaining)
  limited : ∀ n, limit = some n → e.received.length ≤ n
  sync : e.consumer = .sync → limit = none
  ended : e.ended = some (.ok ()) → body.bytes = some e.received

/-- A step under which an unchecked body is delivered: its next chunk can be encoded and the
worker does not end before the last one. -/
def Delivers (e : Exchange) : ResponseAction → Prop
  | .send => ∀ chunk rest, e.producer = .sending (chunk :: rest) → chunk.encode ≠ none
  | .die => ∀ rest, e.producer ≠ .sending rest
  | _ => True

variable {body : ResponseBody} {limit : Option ℕ} {e e' : Exchange} {bs chunk : Bytes}

/-! ## The producing side -/

theorem Conveys.produce (h : Conveys body limit e) (hrec : e'.received = e.received)
    (hended : e'.ended = e.ended) (hconsumer : e'.consumer = e.consumer)
    (hflow : Flowing body e → Flowing body e') : Conveys body limit e' := by
  constructor
  · rw [hended]
    exact fun hnone => hflow (h.flowing hnone)
  · rw [hrec]
    exact h.received
  · rw [hrec, hconsumer, hended]
    exact h.http
  · rw [hrec]
    exact h.limited
  · rw [hconsumer]
    exact h.sync
  · rw [hrec, hended]
    exact h.ended

theorem matched_sending (h : e.matched = true) {rest : List Chunk}
    (hprod : e.producer = .sending rest) :
    e.writing = none ∧ e.completion = .unchecked ∧ e.sink = true := by
  unfold matched at h
  cases hc : e.completion <;> simp_all

theorem matched_pending (h : e.matched = true)
    (hprod : (∃ rest closes, e.producer = .pumping rest closes) ∨
      ∃ result, e.producer = .settled result) : e.completion = .pending := by
  unfold matched at h
  rcases hprod with ⟨rest, closes, hprod⟩ | ⟨result, hprod⟩ <;>
    rw [hprod] at h <;> cases hc : e.completion <;> simp_all

theorem matched_written (h : e.matched = true) {queue : List Bytes} :
    matched { e with writing := none, queue := queue } = true := by
  unfold matched at h ⊢
  split at h <;> simp_all

/-- The failure of a write or of the watcher rejects a pump and nothing else. -/
theorem rejectPump_cases (e : Exchange) (error : String) :
    (∃ rest closes, e.producer = .pumping rest closes ∧
      e.rejectPump error = .settled (.error error)) ∨
    (((∃ rest, e.producer = .sending rest) ∨ e.producer.live = false) ∧
      e.rejectPump error = e.producer) := by
  unfold rejectPump
  cases hprod : e.producer with
  | sending rest => exact .inr ⟨.inl ⟨rest, rfl⟩, rfl⟩
  | pumping rest closes => exact .inl ⟨rest, closes, rfl, rfl⟩
  | settled | done => exact .inr ⟨.inr rfl, rfl⟩

/-- A body whose signal is still to come is not signalled as complete. -/
theorem not_signalled (hcomp : e.completion = .pending)
    (hprod : e.producer ≠ .settled (.ok ())) : ¬e.Signalled := by
  rintro (hs | hs | ⟨hs, -⟩)
  · exact hprod hs
  · rw [hcomp] at hs
    cases hs
  · rw [hcomp] at hs
    cases hs

namespace Flowing

section

variable (h : Flowing body e)

include h

/-- The producing side has ended early, and the client will be told. -/
theorem fail (hrec : e'.received = e.received)
    (hpending : e'.pending <+: e.pending) (hlive : e'.producer.live = false)
    (hmatched : e'.matched = true) (hsignal : ¬e'.Signalled) : Flowing body e' := by
  refine ⟨hmatched, ?_, fun hl => absurd hl (by simp [hlive]),
    fun hl => absurd hl (by simp [hlive]), fun hs => absurd hs hsignal⟩
  rw [hrec]
  exact ((prefix_append_right_inj _).mpr hpending).trans h.sent

theorem append (hlive : e.producer.live = true)
    (hpieces : e.producer.pieces = some bs :: e'.producer.pieces)
    (hrec : e'.received = e.received) (hpending : e'.pending = e.pending ++ bs)
    (hmatched : e'.matched = true) (hsignal : ¬e'.Signalled) : Flowing body e' := by
  have havailable := h.available hlive
  have hbytes := h.bytes hlive
  rw [hpieces] at havailable hbytes
  have hnext : body.available = e'.received ++ e'.pending ++ leading e'.producer.pieces := by
    rw [hrec, hpending, havailable, leading]
    simp
  refine ⟨hmatched, ⟨_, hnext.symm⟩, fun _ => hnext, fun _ => ?_, fun hs => absurd hs hsignal⟩
  rw [hrec, hpending, hbytes, whole, bind_some, Option.map_map]
  refine congrArg (Option.map · _) (funext fun rest => ?_)
  simp

theorem resolve (hlive : e.producer.live = true) (hpieces : e.producer.pieces = [])
    (hrec : e'.received = e.received) (hpending : e'.pending = e.pending)
    (hwriting' : e'.writing = none) (hlive' : e'.producer.live = false)
    (hmatched : e'.matched = true) : Flowing body e' := by
  have hbytes := h.bytes hlive
  rw [hpieces] at hbytes
  have hwhole : body.bytes = some (e.received ++ e.pending) := by
    simpa [whole] using hbytes
  refine ⟨hmatched, ?_, fun hl => absurd hl (by simp [hlive']),
    fun hl => absurd hl (by simp [hlive']), fun _ => ⟨hwriting', ?_⟩⟩
  · rw [hrec, hpending]
    exact h.sent
  · rw [hrec, hpending]
    exact hwhole

theorem send (hdelivers : Delivers e .send) : Flowing body e.send := by
  unfold Exchange.send
  split
  · rename_i hprod
    obtain ⟨hwr, hcomp, -⟩ := matched_sending h.matched hprod
    exact h.resolve (by rw [hprod]; rfl) (by rw [hprod]; rfl) rfl rfl hwr rfl
      (by simp [Exchange.matched, hwr, hcomp])
  · rename_i chunk rest hprod
    obtain ⟨hwr, hcomp, hsink⟩ := matched_sending h.matched hprod
    obtain ⟨bs, hencode⟩ := ne_none_iff_exists'.mp (hdelivers chunk rest hprod)
    have hpieces : e.producer.pieces = some bs :: (Producer.sending rest).pieces := by
      rw [hprod]
      simp [Producer.pieces, hencode]
    rw [hencode]
    refine h.append (by rw [hprod]; rfl) hpieces rfl ?_
      (by simp [Exchange.matched, hwr, hcomp, hsink]) ?_
    · simp [pending, hwr]
    · rintro (hs | hs | ⟨-, hs⟩)
      · cases hs
      · exact Completion.noConfusion (hcomp.symm.trans hs)
      · cases hs
  · exact h

theorem reject {rest : List StreamChunk} {closes : Bool}
    (hprod : e.producer = .pumping rest closes) {error : String}
    (hrec : e'.received = e.received) (hpending : e'.pending <+: e.pending)
    (hcomp : e'.completion = e.completion)
    (hproducer' : e'.producer = .settled (.error error)) : Flowing body e' := by
  have hpend := hcomp.trans (matched_pending h.matched (.inl ⟨_, _, hprod⟩))
  refine h.fail hrec hpending (by rw [hproducer']; rfl) ?_ (not_signalled hpend ?_)
  · simp [Exchange.matched, hproducer', hpend]
  · rw [hproducer']
    exact nofun

theorem read : Flowing body e.read := by
  unfold Exchange.read
  split
  · rename_i content rest closes hprod hwr
    have hcomp := matched_pending h.matched (.inl ⟨_, _, hprod⟩)
    refine h.append (by rw [hprod]; rfl) (by rw [hprod]; rfl) rfl ?_
      (by simp [Exchange.matched, hcomp]) (not_signalled hcomp nofun)
    simp [pending, hwr]
  · rename_i rest closes hprod hwr
    exact h.reject hprod rfl prefix_rfl rfl rfl
  · rename_i hprod hwr
    have hcomp := matched_pending h.matched (.inl ⟨_, _, hprod⟩)
    exact h.resolve (by rw [hprod]; rfl) (by rw [hprod]; rfl) rfl rfl hwr rfl
      (by simp [Exchange.matched, hcomp])
  · rename_i hprod hwr
    exact h.reject hprod rfl prefix_rfl rfl rfl
  · exact h

theorem not_signalled_of_writing (hwr : e.writing = some bs) : ¬e.Signalled := fun hs =>
  some_ne_none _ (hwr.symm.trans (h.complete hs).1)

/-- A write moves bytes that are on their way; it is never in flight once all was signalled. -/
theorem write : Flowing body e.write := by
  unfold Exchange.write
  cases hwr : e.writing with
  | none => exact h
  | some bs =>
    have hpending : pending { e with writing := none, queue := e.queue ++ [bs] } = e.pending := by
      simp [pending, hwr]
    refine ⟨matched_written h.matched, ?_, ?_, ?_,
      fun hs => absurd hs (h.not_signalled_of_writing hwr)⟩
    · rw [hpending]
      exact h.sent
    · rw [hpending]
      exact h.available
    · rw [hpending]
      exact h.bytes

/-- A write that is lost was not the last signal of a complete body. -/
theorem drop (error : String) : Flowing body (e.drop error) := by
  unfold Exchange.drop
  cases hwr : e.writing with
  | none => exact h
  | some =>
    have hpending : ∀ producer, pending { e with
        writing := none, producer := producer } <+: e.pending := by
      simp [pending, hwr]
    rcases rejectPump_cases e error with ⟨rest, _, hprod, hreject⟩ | ⟨hlive, hreject⟩
    · exact h.reject hprod rfl (hpending _) rfl hreject
    rw [hreject]
    rcases hlive with ⟨_, hprod⟩ | hlive
    · rw [(matched_sending h.matched hprod).1] at hwr
      cases hwr
    · exact h.fail rfl (hpending _) hlive (matched_written h.matched)
        (h.not_signalled_of_writing hwr)

theorem unwatch : Flowing body e.unwatch := by
  unfold Exchange.unwatch
  rcases rejectPump_cases e "response consumer closed" with
    ⟨_, _, hprod, hreject⟩ | ⟨-, hreject⟩
  · exact h.reject hprod rfl prefix_rfl rfl hreject
  · rw [hreject]
    exact ⟨h.matched, h.sent, h.available, h.bytes, h.complete⟩

theorem finish : Flowing body e.finish := by
  unfold Exchange.finish
  split
  · rename_i result hprod
    refine ⟨by simp [Exchange.matched, Exchange.complete], h.sent, nofun, nofun, ?_⟩
    rintro (hs | hs | ⟨hs, -⟩)
    · cases hs
    · obtain rfl := Completion.sent.inj hs
      exact h.complete (.inl hprod)
    · cases hs
  · exact h

theorem interrupt (error : String) : Flowing body (e.interrupt error) := by
  have hfail : Flowing body (e.complete (.error error)) := by
    refine h.fail rfl prefix_rfl rfl (by simp [Exchange.matched, Exchange.complete]) ?_
    rintro (hs | hs | ⟨hs, -⟩) <;> cases hs
  unfold Exchange.interrupt
  split
  · exact hfail
  · exact hfail
  · exact h

theorem die (hdelivers : Delivers e .die) : Flowing body e.die := by
  unfold Exchange.die
  have hfail :
      Flowing body { e with producer := .done, sink := false, completion := .dropped } := by
    refine h.fail rfl prefix_rfl rfl (by simp [Exchange.matched]) ?_
    rintro (hs | hs | ⟨hs, -⟩) <;> cases hs
  cases hprod : e.producer with
  | sending rest => exact absurd hprod (hdelivers rest)
  | pumping =>
    rw [matched_pending h.matched (.inl ⟨_, _, hprod⟩)]
    exact hfail
  | settled =>
    rw [matched_pending h.matched (.inr ⟨_, hprod⟩)]
    exact hfail
  | done => exact h

end

end Flowing

/-! ## The consuming side -/

variable {rest : List Bytes}

theorem Flowing.push (h : Flowing body e) (hqueue : e.queue = chunk :: rest) (consumer : Consumer) :
    Flowing body (e.push chunk rest consumer) := by
  have hsame : (e.push chunk rest consumer).received ++ (e.push chunk rest consumer).pending =
      e.received ++ e.pending := by
    simp [Exchange.push, pending, hqueue]
  refine ⟨h.matched, ?_, fun hl => ?_, fun hl => ?_, fun hs => ?_⟩
  · rw [hsame]
    exact h.sent
  · rw [hsame]
    exact h.available hl
  · rw [hsame]
    exact h.bytes hl
  · rw [hsame]
    exact h.complete hs

theorem push_received (h : Flowing body e) (hqueue : e.queue = chunk :: rest) :
    e.received ++ chunk <+: body.available := by
  refine List.IsPrefix.trans ?_ h.sent
  simp [pending, hqueue]

variable {consumer : Consumer}

theorem Conveys.push (hflow : Flowing body e) (hended : e.ended = none)
    (hqueue : e.queue = chunk :: rest)
    (hhttp : ∀ remaining, consumer = .http remaining →
      limit = some ((e.received ++ chunk).length + remaining))
    (hlimited : ∀ n, limit = some n → (e.received ++ chunk).length ≤ n)
    (hsync : consumer = .sync → limit = none) : Conveys body limit (e.push chunk rest consumer) :=
  ⟨fun _ => hflow.push hqueue consumer, push_received hflow hqueue, fun _ => hhttp,
    hlimited, hsync, fun hok => absurd (hended.symm.trans hok) nofun⟩

theorem Conveys.close (h : Conveys body limit e) (hflow : Flowing body e)
    (hended : e.ended = none) (hqueue : e.queue = []) (hclosed : e.closed = true) :
    Conveys body limit { e with ended := e.finalResult } := by
  simp only [closed, Bool.and_eq_true, Bool.not_eq_true', isNone_iff_eq_none] at hclosed
  obtain ⟨⟨hsink, -⟩, hwr⟩ := hclosed
  have hpending : e.received ++ e.pending = e.received := by
    simp [pending, hqueue, hwr]
  refine ⟨fun hnone => ?_, h.received, fun _ => h.http hended, h.limited, h.sync, fun hok => ?_⟩
  · exact ⟨hflow.matched, hflow.sent, hflow.available, hflow.bytes, hflow.complete⟩
  rw [← hpending]
  refine (hflow.complete ?_).2
  unfold finalResult at hok
  cases hcomp : e.completion with
  | unchecked =>
    refine .inr (.inr ⟨hcomp, ?_⟩)
    cases hprod : e.producer with
    | sending =>
      obtain ⟨-, -, hopen⟩ := matched_sending hflow.matched hprod
      rw [hopen] at hsink
      cases hsink
    | pumping =>
      have hpend := matched_pending hflow.matched (.inl ⟨_, _, hprod⟩)
      exact Completion.noConfusion (hcomp.symm.trans hpend)
    | settled =>
      have hpend := matched_pending hflow.matched (.inr ⟨_, hprod⟩)
      exact Completion.noConfusion (hcomp.symm.trans hpend)
    | done => rfl
  | pending => simp [hcomp] at hok
  | sent =>
    simp only [hcomp, some.injEq] at hok
    exact .inr (.inl (hcomp.trans (congrArg _ hok)))
  | dropped => simp [hcomp] at hok

theorem Conveys.poll (h : Conveys body limit e) : Conveys body limit e.poll := by
  unfold Exchange.poll
  cases hended : e.ended with
  | some => exact h
  | none =>
    have hflow := h.flowing hended
    cases hqueue : e.queue with
    | nil =>
      by_cases hclosed : e.closed = true
      · simpa [hclosed, hqueue] using h.close hflow hended hqueue hclosed
      · simpa [hclosed] using h
    | cons chunk =>
      cases hconsumer : e.consumer with
      | sync =>
        refine Conveys.push hflow hended hqueue nofun ?_ fun _ => h.sync hconsumer
        simp [h.sync hconsumer]
      | http remaining =>
        have hlimit := h.http hended remaining hconsumer
        by_cases hfits : chunk.length ≤ remaining
        · simp only [hfits, if_true]
          rw [hlimit]
          refine Conveys.push hflow hended hqueue ?_ ?_ nofun
          · rintro _ ⟨⟩
            rw [length_append]
            exact congrArg some (by omega)
          · rintro _ ⟨⟩
            rw [length_append]
            omega
        · simp only [hfits, if_false]
          exact ⟨nofun, h.received, nofun, h.limited, nofun, nofun⟩

/-! ## Whole responses -/

variable {action : ResponseAction}

theorem perform_client (h : action ≠ .poll) :
    (e.perform action).received = e.received ∧ (e.perform action).ended = e.ended ∧
      (e.perform action).consumer = e.consumer := by
  cases action with
  | poll => exact absurd rfl h
  | send =>
    simp only [perform, send]
    split
    · exact ⟨rfl, rfl, rfl⟩
    · split <;> exact ⟨rfl, rfl, rfl⟩
    · exact ⟨rfl, rfl, rfl⟩
  | unwatch => exact ⟨rfl, rfl, rfl⟩
  | _ =>
    simp only [perform, Exchange.read, write, Exchange.drop, finish, interrupt, die]
    split <;> exact ⟨rfl, rfl, rfl⟩

theorem Flowing.perform (h : Flowing body e) (hpoll : action ≠ .poll)
    (hdelivers : Delivers e action) : Flowing body (e.perform action) := by
  cases action with
  | poll => exact absurd rfl hpoll
  | send => exact h.send hdelivers
  | read => exact h.read
  | write => exact h.write
  | drop error => exact h.drop error
  | unwatch => exact h.unwatch
  | finish => exact h.finish
  | interrupt error => exact h.interrupt error
  | die => exact h.die hdelivers

theorem Conveys.perform (h : Conveys body limit e) (hdelivers : Delivers e action) :
    Conveys body limit (e.perform action) := by
  by_cases hpoll : action = .poll
  · subst hpoll
    exact h.poll
  · obtain ⟨hrec, hended, hconsumer⟩ := perform_client hpoll
    exact h.produce hrec hended hconsumer fun hflow => hflow.perform hpoll hdelivers

def Consumer.most : Consumer → Option ℕ
  | .http limit => some limit
  | .sync => none

theorem buffered_conveys (hwhole : body.bytes = some bs) (havailable : body.available = bs)
    (h : buffered consumer bs = .ok e) : Conveys body consumer.most e := by
  have hended : e.ended = some (.ok ()) ∧ e.received = bs ∧ e.consumer = consumer ∧
      ∀ n, consumer.most = some n → bs.length ≤ n := by
    cases consumer with
    | http =>
      simp only [buffered] at h
      split at h
      · cases h
      · obtain rfl := ok.inj h
        refine ⟨rfl, rfl, rfl, ?_⟩
        rintro _ ⟨⟩
        omega
    | sync =>
      obtain rfl := ok.inj h
      exact ⟨rfl, rfl, rfl, nofun⟩
  obtain ⟨hended, hrec, hconsumer, hlimit⟩ := hended
  have hopen : e.ended ≠ none := by simp [hended]
  refine ⟨fun hnone => absurd hnone hopen, ?_, fun hnone => absurd hnone hopen, ?_, fun hs => ?_,
    fun _ => ?_⟩
  · exact ⟨[], (append_nil _).trans (hrec.trans havailable.symm)⟩
  · rw [hrec]
    exact hlimit
  · obtain rfl := hconsumer.symm.trans hs
    rfl
  · rw [hrec, hwhole]

theorem start_conveys (hmatched : e.matched = true) (hpieces : e.producer.pieces = body.pieces)
    (hsignal : ¬e.Signalled) (hrec : e.received = []) (hpending : e.pending = [])
    (hconsumer : e.consumer = consumer) (hended : e.ended = none) :
    Conveys body consumer.most e := by
  have hnothing : e.received ++ e.pending = [] := by rw [hrec, hpending]; rfl
  refine ⟨fun _ => ⟨hmatched, ?_, fun _ => ?_, fun _ => ?_, fun hs => absurd hs hsignal⟩,
    ?_, fun _ remaining hr => ?_, fun n _ => ?_, fun hs => ?_, fun hok => ?_⟩
  · rw [hnothing]
    exact nil_prefix
  · rw [hnothing, hpieces]
    rfl
  · rw [hnothing, hpieces]
    simp [bytes]
  · rw [hrec]
    exact nil_prefix
  · obtain rfl := hconsumer.symm.trans hr
    simp [hrec, most]
  · simp [hrec]
  · obtain rfl := hconsumer.symm.trans hs
    rfl
  · rw [hended] at hok
    cases hok

theorem emitResponse_conveys (h : emitResponse body consumer = .ok e) :
    Conveys body consumer.most e := by
  cases body with
  | null => exact buffered_conveys rfl rfl h
  | single chunk =>
    simp only [emitResponse] at h
    cases hencode : chunk.encode with
    | none => simp [hencode] at h
    | some =>
      rw [hencode] at h
      refine buffered_conveys ?_ ?_ h
      · simp [bytes, pieces, hencode, whole]
      · simp [available, pieces, hencode, leading]
  | chunks =>
    obtain rfl := ok.inj h
    refine start_conveys rfl rfl ?_ rfl rfl rfl rfl
    rintro (hs | hs | ⟨-, hs⟩) <;> cases hs
  | stream =>
    obtain rfl := ok.inj h
    exact start_conveys rfl rfl (not_signalled rfl (by simp)) rfl rfl rfl rfl

/-- For every body, consumer and interleaving of the two sides: the client has a prefix of the
body, within its limit, and a clean end only with all of it. An unchecked body must be
delivered. -/
theorem response_ends_complete (body : ResponseBody) (consumer : Consumer) (start : Exchange)
    (hstart : emitResponse body consumer = .ok start) (actions : List ResponseAction)
    (hdelivers : ∀ entry ∈ trace Exchange.step start actions, Delivers entry.before entry.input) :
    let e := run step start actions
    e.received <+: body.available ∧
    (∀ limit, consumer = .http limit → e.received.length ≤ limit) ∧
    (e.ended = some (.ok ()) → body.bytes = some e.received) := by
  intro e
  have h : Conveys body consumer.most e :=
    run_invariant_of step start (fun _ _ hc hw => hw.perform hc)
      (emitResponse_conveys hstart) hdelivers
  refine ⟨h.received, ?_, h.ended⟩
  rintro limit rfl
  exact h.limited limit rfl

/-- A stream of two chunks is written, polled and completed. -/
theorem closed_stream_complete :
    let body := stream [.bytes [1, 2], .bytes [3]] true
    let actions := [.read, .write, .poll, .read, .poll, .write, .read, .poll, .finish, .poll,
      .unwatch, .poll]
    ∃ start, emitResponse body (.http 3) = .ok start ∧
      (run step start actions).received = [1, 2, 3] ∧
      (run step start actions).ended = some (.ok ()) ∧
      body.bytes = some (run step start actions).received :=
  ⟨_, rfl, rfl, rfl, (response_ends_complete (.stream [.bytes [1, 2], .bytes [3]] true) (.http 3) _
    rfl _ (by simp [entry, Delivers])).2.2 rfl⟩

/-- A list whose second chunk is a lone surrogate ends cleanly after its first chunk, for an
HTTP client and for `dispatch_sync_until`. -/
theorem lone_surrogate_ends_cleanly :
    let body := chunks [.text [0x61], .text [0xd800]]
    body.bytes = none ∧
    ∀ consumer ∈ [http 10, sync], ∃ start, emitResponse body consumer = .ok start ∧
      (run step start [.send, .send, .poll, .poll]).received = [0x61] ∧
      (run step start [.send, .send, .poll, .poll]).ended = some (.ok ()) := by
  refine ⟨by decide, fun consumer hconsumer => ?_⟩
  simp only [mem_cons, not_mem_nil, or_false] at hconsumer
  rcases hconsumer with rfl | rfl
  · exact ⟨_, rfl, by decide, rfl⟩
  · exact ⟨_, rfl, by decide, rfl⟩

end Tysel.Isolate
