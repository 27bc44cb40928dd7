import Mathlib.Data.List.TakeWhile
import Tysel.Algorithm.Engine.Api

/-! The handler that is never interrupted, as a function of the events it records: each event
carries the outcome of the host call that the handler was about to make. The events between
the start of an attempt and its outcome belong to the attempt, and none of them has the key
of that outcome. -/

namespace Tysel.Engine

open Tysel.Durable List Option Nat Machine

variable {V P : Type} {g f : Frame V P}

/-! ## Retry keys -/

theorem toDigits_takeWhile (n : ℕ) (rest : List Char) :
    (toDigits 10 n ++ ':' :: rest).takeWhile (· ≠ ':') = toDigits 10 n := by
  have hdigits : ∀ c ∈ toDigits 10 n, c ≠ ':' := by
    rintro - hc rfl
    have := isDigit_of_mem_toDigits (by decide) (by decide) hc
    revert this
    decide
  rw [takeWhile_append_of_pos (by simpa using hdigits)]
  simp

def RetryPolicy.text (js : Js V) (policy : RetryPolicy V) : String :=
  String.intercalate ":"
    [toString policy.maxAttempts, toString policy.delayMs, js.factorText policy.factor,
      match policy.maxDelayMs with
      | none => "none"
      | some limit => toString limit]

theorem scope_toList (js : Js V) (f : Frame V P) (s : String) : (f.scope js ++ s).toList =
      "retry:".toList ++ (toDigits 10 f.id ++ ':' :: (f.policy.text js ++ s).toList) := by
  have hscope : f.scope js = "retry" ++ ":" ++ (toString f.id ++ ":" ++ f.policy.text js) :=
    String.intercalate_cons_cons.trans
      (congrArg ("retry" ++ ":" ++ ·) String.intercalate_cons_cons)
  have hretry : "retry:".toList = "retry".toList ++ ":".toList := by decide
  have hcolon : ∀ rest : List Char, ':' :: rest = ":".toList ++ rest := fun _ => rfl
  simp only [hscope, hretry, hcolon, String.toList_append, toString_eq_repr, toList_repr,
    append_assoc]

/-- A text that continues a retry scope determines the number of the scope. -/
theorem scope_id {js : Js V} {s t : String} (h : f.scope js ++ s = g.scope js ++ t) :
    f.id = g.id := by
  have hlists := congrArg String.toList h
  rw [scope_toList, scope_toList] at hlists
  have hdigits := congrArg (takeWhile (· ≠ ':')) (append_cancel_left hlists)
  rw [toDigits_takeWhile, toDigits_takeWhile] at hdigits
  rw [← ofDigitChars_ten_toDigits (n := f.id), hdigits, ofDigitChars_ten_toDigits]

theorem dropWhile_digits (n : ℕ) (front : List Char) :
    ((front ++ ':' :: toDigits 10 n).reverse.dropWhile Char.isDigit) = ':' :: front.reverse := by
  have hdigits : ∀ c ∈ (toDigits 10 n).reverse, c.isDigit = true := by
    intro c hc
    exact isDigit_of_mem_toDigits (by decide) (by decide) (mem_reverse.mp hc)
  rw [reverse_append, reverse_cons, append_assoc, dropWhile_append_of_pos hdigits]
  rfl

theorem startKey_ne_outcomeKey (js : Js V) (f g : Frame V P) : g.startKey js ≠ f.outcomeKey js := by
  intro hkey
  have hlists := congrArg String.toList hkey
  have hstart : (g.startKey js).toList =
      ((g.scope js).toList ++ ":start".toList) ++ ':' :: toDigits 10 g.attempt := by
    simp [Frame.startKey, String.toList_append, toString_eq_repr, toList_repr]
  have houtcome : (f.outcomeKey js).toList =
      ((f.scope js).toList ++ ":outcome".toList) ++ ':' :: toDigits 10 f.attempt := by
    simp [Frame.outcomeKey, String.toList_append, toString_eq_repr, toList_repr]
  rw [hstart, houtcome] at hlists
  have hfronts := congrArg (fun cs => cs.reverse.dropWhile Char.isDigit) hlists
  simp only [dropWhile_digits] at hfronts
  simp at hfronts

theorem outcomeKey_ne_outcomeKey {js : Js V} (h : f.id < g.id) :
    g.outcomeKey js ≠ f.outcomeKey js := by
  intro hkey
  simp only [Frame.outcomeKey, String.append_assoc] at hkey
  exact absurd (scope_id hkey) h.ne'

theorem Boundary.kind_ne_retry (b : Boundary) : b.kind ≠ .retry := by
  cases b <;> simp [Boundary.kind]


/-! ## Recorded events -/

namespace Machine

variable (js : Js V) (p : Program V P)

/-- A boundary whose event is recorded. A sleep is still to be completed. -/
def land (stack : List (Frame V P)) (index : ℕ) (b : Boundary) (k : Cont V P) (payload : String) :
    Machine V P :=
  match b with
  | .sleep _ => ⟨stack, index, .sleeping k⟩
  | b => give p stack index k (.ok (b.hand js (js.parse payload)))

def awake (m : Machine V P) : Machine V P :=
  match m.phase with
  | .sleeping k => give p m.stack m.retryIndex k (.ok js.undefined)
  | _ => m

/-- The outcome event of an attempt. An attempt that has called `retry` itself has moved the
counter, and is not closed here. -/
def close (frame : Frame V P) (stack : List (Frame V P)) (index : ℕ) (event : EventRow) :
    Option (Machine V P) :=
  if event.kind = .retry ∧ event.eventKey = frame.outcomeKey js ∧ index = frame.id + 1 then
    some (settle js p stack index frame (js.replayed (js.parse event.payload)))
  else none

/-- The event of the host call that the handler makes next: a boundary has returned, an attempt
has started, or an attempt has ended. -/
def take (m : Machine V P) (event : EventRow) : Option (Machine V P) :=
  match m.phase with
  | .asking b k =>
    if event.kind = b.kind ∧ event.eventKey = b.key then
      some (land js p m.stack m.retryIndex b k event.payload)
    else none
  | .starting frame =>
    if event.kind = .retry ∧ event.eventKey = frame.startKey js then
      some (begin p m.stack m.retryIndex frame)
    else none
  | .recording frame _ => close js p frame m.stack m.retryIndex event
  | _ => none

/-- The points at which an exception can end an attempt without an event. -/
def Interruptible (m : Machine V P) : Prop :=
  match m.phase with
  | .asking .. | .sleeping _ => True
  | _ => False

instance (m : Machine V P) : Decidable m.Interruptible := by
  unfold Interruptible
  split <;> infer_instance

def interrupt (m : Machine V P) (event : EventRow) : Option (Machine V P) :=
  match m.stack with
  | [] => none
  | frame :: rest =>
    if m.Interruptible then close js p frame rest m.retryIndex event else none

def consume (m : Machine V P) (event : EventRow) : Option (Machine V P) :=
  match (m.awake js p).take js p event with
  | some m' => some m'
  | none => m.interrupt js p event

def run (m : Machine V P) : List EventRow → Option (Machine V P)
  | [] => some m
  | event :: events => (m.consume js p event).bind fun m' => run m' events

end Machine

/-- The handler that has recorded these events without an interruption. -/
def uninterrupted (js : Js V) (p : Program V P) (events : List EventRow) : Option (Machine V P) :=
  (start p).run js p events

variable {js : Js V} {p : Program V P}

theorem Machine.run_append (m : Machine V P) (es es' : List EventRow) :
    m.run js p (es ++ es') = (m.run js p es).bind fun m' => m'.run js p es' := by
  induction es generalizing m with
  | nil => rfl
  | cons e _ ih =>
    simp only [cons_append, run]
    cases m.consume js p e with
    | none => rfl
    | some m' => exact ih m'

theorem uninterrupted_concat (es : List EventRow) (e : EventRow) :
    uninterrupted js p (es ++ [e]) = (uninterrupted js p es).bind fun m => m.consume js p e := by
  simp only [uninterrupted, Machine.run_append, Machine.run]
  cases (Machine.start p).run js p es with
  | none => rfl
  | some m => cases h : m.consume js p e <;> simp [h]

variable {events : List EventRow} {m : Machine V P}

theorem uninterrupted_front (h : uninterrupted js p events = some m) (n : ℕ) :
    ∃ m', uninterrupted js p (events.take n) = some m' := by
  rw [← take_append_drop n events, uninterrupted, Machine.run_append] at h
  obtain ⟨m', hm', -⟩ := bind_eq_some_iff.mp h
  exact ⟨m', hm'⟩

variable {e : EventRow} {cont : Cont V P}

theorem uninterrupted_take (h : uninterrupted js p events = some m) {n : ℕ}
    (hn : events[n]? = some e) : ∃ m₀ m₁, uninterrupted js p (events.take n) = some m₀ ∧
      m₀.consume js p e = some m₁ ∧
      uninterrupted js p (events.take (n + 1)) = some m₁ := by
  have htake : events.take (n + 1) = events.take n ++ [e] := by
    rw [take_add_one, hn]
    rfl
  obtain ⟨m₁, hm₁⟩ := uninterrupted_front h (n + 1)
  have hconcat : uninterrupted js p (events.take n ++ [e]) = some m₁ := htake ▸ hm₁
  rw [uninterrupted_concat] at hconcat
  obtain ⟨m₀, hm₀, hconsume⟩ := bind_eq_some_iff.mp hconcat
  exact ⟨m₀, m₁, hm₀, hconsume, hm₁⟩

/-! ## Between two events -/

/-- A handler that is about to make a host call of its own, or has finished. While an attempt
starts or its retry backs off, the counter is right after its scope. -/
def Machine.Ready (m : Machine V P) : Prop :=
  match m.phase with
  | .asking _ (.again frame) | .starting frame => m.retryIndex = frame.id + 1
  | .asking _ (.resume _) | .recording .. | .finished _ => True
  | _ => False

/-- Between two events a handler is ready, or it sleeps. -/
def Machine.Resting (m : Machine V P) : Prop :=
  match m.phase with
  | .sleeping (.again frame) => m.retryIndex = frame.id + 1
  | .sleeping (.resume _) => True
  | _ => m.Ready

namespace Machine

variable (js p) (stack : List (Frame V P)) (index : ℕ) {frame : Frame V P}

theorem leave_ready (res : Except V V) : (leave stack index res).Ready := by
  cases stack <;> trivial

theorem enter_ready (level : Level V P) : (enter p stack index level).Ready := by
  unfold enter
  split
  · exact leave_ready ..
  · exact leave_ready ..
  · trivial
  · exact rfl

theorem give_ready (h : ∀ frame, cont = .again frame → index = frame.id + 1)
    (res : Except V V) : (give p stack index cont res).Ready := by
  unfold give
  split
  · rename_i frame _
    exact h frame rfl
  · exact enter_ready ..

theorem settle_ready (h : index = frame.id + 1) (verdict : Bool × Except V V) :
    (settle js p stack index frame verdict).Ready := by
  unfold settle
  split
  · exact enter_ready ..
  · split
    · exact enter_ready ..
    · exact h
    · exact h

variable {js p} {m m' : Machine V P} {e : EventRow}

theorem Ready.resting (h : m.Ready) : m.Resting := by
  obtain ⟨stack, index, phase⟩ := m
  cases phase with
  | sleeping => exact h.elim
  | _ => exact h

theorem Resting.awake (h : m.Resting) : (m.awake js p).Ready := by
  obtain ⟨stack, index, phase⟩ := m
  cases phase with
  | sleeping =>
    refine give_ready _ _ _ ?_ _
    rintro frame rfl
    exact h
  | _ => exact h

/-! ### What an event can be -/

theorem close_eq_some {stack : List (Frame V P)} {index : ℕ} :
    close js p frame stack index e = some m ↔
      (e.kind = .retry ∧ e.eventKey = frame.outcomeKey js) ∧ index = frame.id + 1 ∧
        m = settle js p stack index frame (js.replayed (js.parse e.payload)) := by
  simp only [close, ite_none_right_eq_some, some.injEq, and_assoc, eq_comm (a := m)]

theorem take_cases (h : m.take js p e = some m') :
    (∃ b k, m.phase = .asking b k ∧ e.kind = b.kind ∧ e.eventKey = b.key ∧
        m' = land js p m.stack m.retryIndex b k e.payload) ∨
      (∃ frame, m.phase = .starting frame ∧ e.kind = .retry ∧ e.eventKey = frame.startKey js ∧
        m' = begin p m.stack m.retryIndex frame) ∨
      (∃ frame res, m.phase = .recording frame res ∧
        close js p frame m.stack m.retryIndex e = some m') := by
  unfold take at h
  split at h
  · rename_i b k hp
    obtain ⟨⟨hkind, hkey⟩, ⟨⟩⟩ := ite_none_right_eq_some.mp h
    exact .inl ⟨b, k, hp, hkind, hkey, rfl⟩
  · rename_i frame hp
    obtain ⟨⟨hkind, hkey⟩, ⟨⟩⟩ := ite_none_right_eq_some.mp h
    exact .inr (.inl ⟨frame, hp, hkind, hkey, rfl⟩)
  · rename_i frame res hp
    exact .inr (.inr ⟨frame, res, hp, h⟩)
  · cases h

theorem interrupt_eq_some : m.interrupt js p e = some m' ↔ m.Interruptible ∧
      ∃ frame rest, m.stack = frame :: rest ∧ close js p frame rest m.retryIndex e = some m' := by
  unfold interrupt
  cases m.stack with
  | nil => simp
  | cons => simp [ite_none_right_eq_some]

theorem consume_cases (h : m.consume js p e = some m') :
    (m.awake js p).take js p e = some m' ∨ m.Interruptible ∧ ∃ frame rest, m.stack = frame :: rest ∧
        close js p frame rest m.retryIndex e = some m' := by
  unfold consume at h
  split at h
  · rename_i htake
    obtain rfl := some.inj h
    exact .inl htake
  · exact .inr (interrupt_eq_some.mp h)

theorem consume_of_take (h : (m.awake js p).take js p e = some m') :
    m.consume js p e = some m' := by
  simp only [consume, h]

end Machine

variable {m' : Machine V P}

theorem Machine.Resting.consume (h : m.Resting) (hconsume : m.consume js p e = some m') :
    m'.Resting := by
  have hready : (m.awake js p).Ready := h.awake
  rcases consume_cases hconsume with htake | ⟨-, frame, _, -, hclose⟩
  · rcases take_cases htake with ⟨b, k, hp, -, -, rfl⟩ | ⟨frame, -, -, -, rfl⟩ |
      ⟨frame, res, -, hclose⟩
    · have hindex (frame) (hk : k = .again frame) : (m.awake js p).retryIndex = frame.id + 1 := by
        simpa [Machine.Ready, hp, hk] using hready
      unfold land
      split
      · cases k with
        | resume => trivial
        | again frame => exact hindex frame rfl
      · exact (give_ready _ _ _ hindex _).resting
    · exact (enter_ready ..).resting
    · obtain ⟨-, hindex, rfl⟩ := close_eq_some.mp hclose
      exact (settle_ready _ _ _ _ hindex _).resting
  · obtain ⟨-, hindex, rfl⟩ := close_eq_some.mp hclose
    exact (settle_ready _ _ _ _ hindex _).resting

theorem uninterrupted_resting (h : uninterrupted js p events = some m) : m.Resting := by
  induction events using reverseRecOn generalizing m with
  | nil =>
    obtain rfl := some.inj h
    exact (enter_ready ..).resting
  | append_singleton _ _ ih =>
    rw [uninterrupted_concat] at h
    obtain ⟨_, hm₀, hconsume⟩ := bind_eq_some_iff.mp h
    exact (ih hm₀).consume hconsume

/-! ## Inside an attempt -/

def Cont.Above (id : ℕ) : Cont V P → Prop
  | .resume _ => True
  | .again frame => id < frame.id

def Phase.Above (id : ℕ) : Phase V P → Prop
  | .asking _ cont | .sleeping cont => cont.Above id
  | .starting frame | .recording frame _ => id < frame.id
  | _ => False

/-- The callback of an attempt is running, or has ended: the attempts above it have later
scopes. -/
structure Inside (frame : Frame V P) (base : List (Frame V P)) (m : Machine V P) : Prop where
  later : frame.id < m.retryIndex
  place : (∃ res, m.phase = .recording frame res ∧ m.stack = base) ∨
    ∃ inner, m.stack = inner ++ frame :: base ∧ (∀ g ∈ inner, frame.id < g.id) ∧
      m.phase.Above frame.id

variable {frame : Frame V P} {base inner : List (Frame V P)} {index : ℕ}

def Frame.Outcome (js : Js V) (frame : Frame V P) (e : EventRow) : Prop :=
  e.kind = .retry ∧ e.eventKey = frame.outcomeKey js

/-- The event is the outcome of the attempt, or something else that happens inside it. -/
def InsideStep (js : Js V) (p : Program V P) (frame : Frame V P) (base : List (Frame V P))
    (e : EventRow) (m : Machine V P) : Prop :=
  (frame.Outcome js e ∧
    m = settle js p base (frame.id + 1) frame (js.replayed (js.parse e.payload))) ∨
  (¬ frame.Outcome js e ∧ Inside frame base m)

section

variable (hla : frame.id < index) (hin : ∀ g ∈ inner, frame.id < g.id)

include hla hin

theorem Inside.leave (res : Except V V) :
    Inside frame base (leave (inner ++ frame :: base) index res) := by
  cases inner with
  | nil => exact ⟨hla, .inl ⟨res, rfl, rfl⟩⟩
  | cons g rest =>
    exact ⟨hla, .inr ⟨rest, rfl, fun g' hg' => hin g' (by simp [hg']), hin g (by simp)⟩⟩

theorem Inside.enter (level : Level V P) :
    Inside frame base (Machine.enter p (inner ++ frame :: base) index level) := by
  unfold Machine.enter
  split
  · exact .leave hla hin _
  · exact .leave hla hin _
  · exact ⟨hla, .inr ⟨inner, rfl, hin, trivial⟩⟩
  · exact ⟨hla.trans (lt_succ_self _), .inr ⟨inner, rfl, hin, hla⟩⟩

theorem Inside.give (hcont : cont.Above frame.id) (res : Except V V) :
    Inside frame base (Machine.give p (inner ++ frame :: base) index cont res) := by
  unfold Machine.give
  split
  · exact ⟨hla, .inr ⟨inner, rfl, hin, hcont⟩⟩
  · exact .enter hla hin _

theorem Inside.land {b : Boundary} (hcont : cont.Above frame.id) (payload : String) :
    Inside frame base
      (Machine.land js p (inner ++ frame :: base) index b cont payload) := by
  unfold Machine.land
  split
  · exact ⟨hla, .inr ⟨inner, rfl, hin, hcont⟩⟩
  · exact .give hla hin hcont _

theorem Inside.settle (hg : frame.id < g.id) (verdict : Bool × Except V V) :
    Inside frame base (Machine.settle js p (inner ++ frame :: base) index g verdict) := by
  unfold Machine.settle
  split
  · exact .enter hla hin _
  · split
    · exact .enter hla hin _
    · exact ⟨hla, .inr ⟨inner, rfl, hin, hg⟩⟩
    · exact ⟨hla, .inr ⟨inner, rfl, hin, hg⟩⟩

theorem Inside.close {rest : List (Frame V P)} (hstack : inner ++ frame :: base = g :: rest)
    (hclose : close js p g rest index e = some m') :
    InsideStep js p frame base e m' := by
  obtain ⟨hout, hindex, rfl⟩ := close_eq_some.mp hclose
  cases inner with
  | nil =>
    obtain ⟨rfl, rfl⟩ := cons.inj hstack
    exact .inl ⟨hout, by rw [hindex]⟩
  | cons g' =>
    obtain ⟨rfl, rfl⟩ := cons.inj hstack
    have hg := hin g' (by simp)
    refine .inr ⟨?_, .settle hla (fun x hx => hin x (by simp [hx])) hg _⟩
    rintro ⟨-, hkey⟩
    exact outcomeKey_ne_outcomeKey hg (hout.2.symm.trans hkey)

end

namespace Inside

theorem awake (h : Inside frame base m) : Inside frame base (m.awake js p) := by
  obtain ⟨stack, index, phase⟩ := m
  cases phase with
  | sleeping =>
    obtain ⟨hla, ⟨res, ⟨⟩, -⟩ | ⟨inner, rfl, hin, habove⟩⟩ := h
    exact .give hla hin habove _
  | _ => exact h

theorem begin (h : index = frame.id + 1) : Inside frame base (begin p base index frame) := by
  have hla : frame.id < index := by omega
  have hin : ∀ g ∈ ([] : List (Frame V P)), frame.id < g.id := by simp
  exact enter hla hin ⟨frame.body frame.attempt, []⟩

theorem take (h : Inside frame base m) (htake : m.take js p e = some m') :
    InsideStep js p frame base e m' := by
  obtain ⟨hla, ⟨_, hp, hstack⟩ | ⟨inner, hstack, hin, habove⟩⟩ := h
  · -- the callback has ended: only the outcome can follow
    rcases take_cases htake with ⟨b, k, hphase', -⟩ | ⟨g, hphase', -⟩ | ⟨g, r, hphase', hclose⟩
    · simp [hp] at hphase'
    · simp [hp] at hphase'
    · rw [hp] at hphase'
      cases hphase'
      obtain ⟨hout, hindex, rfl⟩ := close_eq_some.mp hclose
      exact .inl ⟨hout, by rw [hstack, hindex]⟩
  · right
    rcases take_cases htake with ⟨b, _, hp, hkind, -, rfl⟩ |
      ⟨g, hp, -, hkey, rfl⟩ | ⟨g, _, hp, hclose⟩
    · rw [hp] at habove
      rw [hstack]
      refine ⟨?_, .land hla hin habove _⟩
      rintro ⟨hretry, -⟩
      exact b.kind_ne_retry (hkind.symm.trans hretry)
    · rw [hp] at habove
      rw [hstack]
      refine ⟨?_, ?_⟩
      · rintro ⟨-, hout⟩
        exact startKey_ne_outcomeKey js frame g (hkey.symm.trans hout)
      · have hinner' : ∀ g' ∈ g :: inner, frame.id < g'.id := by simpa using ⟨habove, hin⟩
        exact .enter hla hinner' _
    · obtain ⟨hout, _, rfl⟩ := close_eq_some.mp hclose
      rw [hp] at habove
      rw [hstack]
      refine ⟨?_, .settle hla hin habove _⟩
      rintro ⟨-, hkey⟩
      exact outcomeKey_ne_outcomeKey habove (hout.2.symm.trans hkey)

theorem consume (h : Inside frame base m) (hconsume : m.consume js p e = some m') :
    InsideStep js p frame base e m' := by
  rcases consume_cases hconsume with htake | ⟨hp, _, _, hstack', hclose⟩
  · exact h.awake.take htake
  · obtain ⟨hla, ⟨res, hrecording, -⟩ | ⟨inner, hstack, hin, -⟩⟩ := h
    · simp [Machine.Interruptible, hrecording] at hp
    · exact close hla hin (hstack.symm.trans hstack') hclose

/-- The first outcome event after the start of an attempt ends this attempt, whatever has
happened inside it. -/
theorem skip {es : List EventRow} (h : Inside frame base m)
    (hrun : m.run js p (es ++ [e]) = some m') (hes : ∀ e' ∈ es, ¬ frame.Outcome js e')
    (he : frame.Outcome js e) : m' = Machine.settle js p base (frame.id + 1) frame
      (js.replayed (js.parse e.payload)) := by
  induction es generalizing m with
  | nil =>
    obtain ⟨_, hconsume, hm₁⟩ := bind_eq_some_iff.mp hrun
    obtain rfl := some.inj hm₁
    rcases h.consume hconsume with ⟨-, hsettled⟩ | ⟨hnot, -⟩
    · exact hsettled
    · exact absurd he hnot
  | cons e' _ ih =>
    obtain ⟨m₁, hconsume, hrest⟩ := bind_eq_some_iff.mp hrun
    rcases h.consume hconsume with ⟨hout, -⟩ | ⟨-, hinside⟩
    · exact absurd hout (hes e' (by simp))
    · exact ih hinside hrest fun x hx => hes x (by simp [hx])

end Inside

end Tysel.Engine
