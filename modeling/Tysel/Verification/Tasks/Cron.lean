import Tysel.Algorithm.Tasks.Ingress

/-! Every pair of a minute and a registration has a place in one order. A poll takes a prefix of the
due pairs from its cursor on and leaves the cursor behind the last one. -/

namespace Tysel.Tasks

open List Nat List.Pairwise CronPosition

open TaskIngress (startPosition)

/-- The order of the pairs: by minute, then by registration. -/
def CronPosition.Before (p q : CronPosition) : Prop :=
  p.minute < q.minute ∨ p.minute = q.minute ∧ p.registration < q.registration

variable {p : CronPosition}

def isDue (cron : List CronRegistration) (minute index : ℕ) : Bool :=
  (cron[index]?).any fun registration => registration.schedule.matchesUnixMs (minute * minuteMs)

def dueRest (cron : List CronRegistration) (minute index : ℕ) : List CronPosition :=
  ((List.range' index (cron.length - index)).filter (isDue cron minute)).map (.mk minute)

def scheduled (cron : List CronRegistration) (minute count : ℕ) : List CronPosition :=
  (List.range' minute count).flatMap fun minute => dueRest cron minute 0

/-- The matching pairs from a position on, before a minute. -/
def dueSpan (cron : List CronRegistration) (p : CronPosition) (limit : ℕ) : List CronPosition :=
  if p.minute < limit then
    dueRest cron p.minute p.registration ++ scheduled cron (p.minute + 1) (limit - p.minute - 1)
  else []

variable {cron : List CronRegistration}

variable {index limit : ℕ} {q : CronPosition}

theorem mem_dueRest {minute : ℕ} : p ∈ dueRest cron minute index ↔
      p.minute = minute ∧ index ≤ p.registration ∧ isDue cron minute p.registration = true := by
  simp only [dueRest, mem_map, mem_filter, mem_range'_1]
  constructor
  · rintro ⟨_, ⟨⟨hle, -⟩, hdue⟩, rfl⟩
    exact ⟨rfl, hle, hdue⟩
  rintro ⟨rfl, hle, hdue⟩
  refine ⟨p.registration, ⟨⟨hle, ?_⟩, hdue⟩, rfl⟩
  obtain ⟨_, hr, -⟩ := Option.any_eq_true _ _ |>.mp hdue
  have hlt := (List.getElem?_eq_some_iff.mp hr).1
  omega

theorem mem_scheduled {minute count : ℕ} :
    p ∈ scheduled cron minute count ↔ minute ≤ p.minute ∧ p.minute < minute + count ∧
      isDue cron p.minute p.registration = true := by
  simp only [scheduled, mem_flatMap, mem_range'_1, mem_dueRest]
  constructor
  · rintro ⟨-, ⟨hle, hlt⟩, rfl, -, hdue⟩
    exact ⟨hle, hlt, hdue⟩
  · rintro ⟨hle, hlt, hdue⟩
    exact ⟨p.minute, ⟨hle, hlt⟩, rfl, zero_le _, hdue⟩

theorem dueRest_sorted (cron : List CronRegistration) (minute index : ℕ) :
    (dueRest cron minute index).Pairwise Before := by
  rw [dueRest, pairwise_map]
  refine (filter _ pairwise_lt_range').imp fun hlt => ?_
  exact .inr ⟨rfl, hlt⟩

theorem scheduled_sorted (cron : List CronRegistration) (minute count : ℕ) :
    (scheduled cron minute count).Pairwise Before := by
  rw [scheduled, pairwise_flatMap]
  refine ⟨fun m _ => dueRest_sorted cron m 0, imp ?_ pairwise_lt_range'⟩
  intro m m' hlt p hp q hq
  rw [mem_dueRest] at hp hq
  exact .inl (by omega)

/-- Sorted lists with the same positions are equal. -/
theorem eq_of_mem_iff {ps qs : List CronPosition} (hps : ps.Pairwise Before)
    (hqs : qs.Pairwise Before) (h : ∀ p, p ∈ ps ↔ p ∈ qs) : ps = qs := by
  have : Std.Irrefl Before := ⟨fun p => by unfold Before; omega⟩
  have : Std.Antisymm Before := ⟨fun p q hpq hqp => by unfold Before at *; omega⟩
  exact hps.eq_of_mem_iff hqs h

theorem dueSpan_sorted (cron : List CronRegistration) (p : CronPosition) (limit : ℕ) :
    (dueSpan cron p limit).Pairwise Before := by
  unfold dueSpan
  split
  · rw [pairwise_append]
    refine ⟨dueRest_sorted .., scheduled_sorted .., fun a ha b hb => ?_⟩
    rw [mem_dueRest] at ha
    rw [mem_scheduled] at hb
    exact .inl (by omega)
  · exact nil

theorem mem_dueSpan : q ∈ dueSpan cron p limit ↔
      ¬ q.Before p ∧ q.minute < limit ∧ isDue cron q.minute q.registration = true := by
  unfold dueSpan Before
  split
  · rw [mem_append, mem_dueRest, mem_scheduled]
    constructor
    · rintro (⟨hminute, hle, hdue⟩ | ⟨hle, _, hdue⟩)
      · exact ⟨by omega, by omega, hminute ▸ hdue⟩
      · exact ⟨by omega, by omega, hdue⟩
    rintro ⟨_, _, hdue⟩
    rcases lt_or_ge p.minute q.minute with hlater | hsame
    · exact .inr ⟨hlater, by omega, hdue⟩
    · have hminute : q.minute = p.minute := by omega
      exact .inl ⟨hminute, by omega, hminute ▸ hdue⟩
  · constructor
    · exact nofun
    · rintro ⟨_, _, -⟩
      omega

theorem dueSpan_end (h : limit ≤ p.minute) : dueSpan cron p limit = [] := if_neg (not_lt.mpr h)

theorem dueSpan_start {minute : ℕ} (h : minute ≤ limit) :
    dueSpan cron ⟨minute, 0⟩ limit = scheduled cron minute (limit - minute) := by
  refine eq_of_mem_iff (dueSpan_sorted ..) (scheduled_sorted ..) fun q => ?_
  simp only [mem_dueSpan, mem_scheduled, Before]
  constructor
  · rintro ⟨_, _, hdue⟩
    exact ⟨by omega, by omega, hdue⟩
  · rintro ⟨_, _, hdue⟩
    exact ⟨by omega, by omega, hdue⟩

/-- The pairs before a later minute are those before an earlier one and those after it. -/
theorem dueSpan_extend {limit' : ℕ} (hlimit : limit ≤ limit') (hp : p.minute ≤ limit)
    (hstart : p.minute = limit → p.registration = 0) :
    dueSpan cron p limit ++ dueSpan cron ⟨limit, 0⟩ limit' = dueSpan cron p limit' := by
  refine eq_of_mem_iff (pairwise_append.mpr ⟨dueSpan_sorted .., dueSpan_sorted ..,
    fun a ha b hb => ?_⟩) (dueSpan_sorted ..) fun q => ?_
  · simp only [mem_dueSpan, Before] at *
    omega
  simp only [mem_append, mem_dueSpan, Before]
  constructor
  · rintro (⟨hfrom, hlt, hdue⟩ | ⟨hfrom, hlt, hdue⟩) <;> exact ⟨by omega, by omega, hdue⟩
  · rintro ⟨hfrom, hlt, hdue⟩
    rcases lt_or_ge q.minute limit with hbefore | _
    · exact .inl ⟨hfrom, hbefore, hdue⟩
    · exact .inr ⟨by omega, hlt, hdue⟩

/-- What is left of a span from one of its pairs on. -/
theorem dueSpan_split {fired rest : List CronPosition}
    (h : fired ++ q :: rest = dueSpan cron p limit) :
    dueSpan cron q limit = q :: rest ∧ (∀ r ∈ fired, r.Before q) ∧ ¬ q.Before p ∧
      q.minute < limit := by
  have hmem r : r ∈ fired ++ q :: rest ↔
      ¬ r.Before p ∧ r.minute < limit ∧ isDue cron r.minute r.registration = true :=
    h ▸ mem_dueSpan
  have hsorted := dueSpan_sorted cron p limit
  rw [← h, pairwise_append] at hsorted
  obtain ⟨-, hrest, hcross⟩ := hsorted
  obtain ⟨hfrom, hlimit, -⟩ := (hmem q).mp (by simp)
  have hf (r) (hr : r ∈ fired) : r.Before q := hcross r hr q (mem_cons_self ..)
  refine ⟨eq_of_mem_iff (dueSpan_sorted ..) hrest fun r => ?_, hf, hfrom, hlimit⟩
  rw [mem_dueSpan]
  constructor
  · rintro ⟨hafter, hlt, hdue⟩
    have hlater : ¬ r.Before p := by unfold Before at *; omega
    exact (mem_append.mp ((hmem r).mpr ⟨hlater, hlt, hdue⟩)).resolve_left
      fun hr => hafter (hf r hr)
  intro hr
  refine ⟨?_, ((hmem r).mp (mem_append_right _ hr)).2⟩
  rcases mem_cons.mp hr with rfl | hr
  · unfold Before
    omega
  · have hbefore := (pairwise_cons.mp hrest).1 r hr
    unfold Before at *
    omega

theorem dueRest_skip {minute : ℕ} (h : isDue cron minute index = false) :
    dueRest cron minute index = dueRest cron minute (index + 1) := by
  rcases lt_or_ge index cron.length with hlt | hge
  · rw [dueRest, dueRest, show cron.length - index = cron.length - (index + 1) + 1 by omega,
      range'_succ, filter_cons_of_neg (by simp [h])]
  · rw [dueRest, dueRest, show cron.length - index = 0 by omega,
      show cron.length - (index + 1) = 0 by omega]
    rfl

theorem dueRest_take {minute : ℕ} (h : isDue cron minute index = true) :
    dueRest cron minute index = ⟨minute, index⟩ :: dueRest cron minute (index + 1) := by
  obtain ⟨_, hr, -⟩ := Option.any_eq_true _ _ |>.mp h
  have hlt := (List.getElem?_eq_some_iff.mp hr).1
  rw [dueRest, dueRest, show cron.length - index = cron.length - (index + 1) + 1 by omega,
    range'_succ, filter_cons_of_pos h, map_cons]

def dayMs : ℕ := 24 * 60 * 60 * 1000

/-- A poll: its time, the cursor before and after it, the pairs that it has enqueued and the
free places in the queue when it starts. -/
structure CronCall where
  nowMs : ℕ
  before : Option CronPosition
  fired : List CronPosition
  after : Option CronPosition
  room : ℕ
  deriving DecidableEq

def CronCall.minute (call : CronCall) : ℕ := call.nowMs / minuteMs

def CronCall.Stopped (call : CronCall) (p : CronPosition) : Prop :=
  call.after = some p ∧ p.minute ≤ call.minute

/-- The cursor after a poll that has reached its minute. -/
def CronCall.Reached (call : CronCall) (p : CronPosition) : Prop :=
  call.after = some p ∧ p.minute ≤ call.minute + 1 ∧
    (p.minute = call.minute + 1 → p.registration = 0)

/-- What a poll does to the cursor. It stays when it is ahead or a deadline is out of range. -/
inductive CronCall.Polled (cron : List CronRegistration) (timeout : ℕ)
    (call : CronCall) : Prop where
  | idle (hf : call.fired = []) (hafter : call.after = call.before)
      (hidle : (∃ p, call.before = some p ∧ call.minute < p.minute) ∨ 2 ^ 64 ≤ call.nowMs + timeout)
  | moved (start p : CronPosition)
      (hstart : startPosition call.before call.minute = some start)
      (hre : call.Reached p) (hlater : ¬ p.Before start)
      (hf : call.fired ++ dueSpan cron p (call.minute + 1) = dueSpan cron start (call.minute + 1))
      (hbehind : ∀ q ∈ call.fired, q.Before p)
      (hroom : p.minute ≤ call.minute → 0 < call.room → call.fired ≠ [])

theorem startPosition_ge {cursor : Option CronPosition} {minute : ℕ} {start : CronPosition}
    (h : startPosition cursor minute = some start) :
    start.minute ≤ minute ∧ ∀ p, cursor = some p → ¬ start.Before p := by
  unfold startPosition at h
  cases cursor with
  | none =>
    obtain rfl := Option.some.inj h
    exact ⟨le_rfl, by simp⟩
  | some =>
    dsimp only at h
    unfold Before
    split at h
    · cases h
    split at h
    · obtain rfl := Option.some.inj h
      refine ⟨by omega, ?_⟩
      rintro - ⟨⟩
      omega
    obtain rfl := Option.some.inj h
    refine ⟨sub_le .., ?_⟩
    rintro _ ⟨⟩
    dsimp only
    omega

theorem startPosition_kept {nowMs : ℕ} (hminute : p.minute ≤ nowMs / minuteMs)
    (hday : nowMs < p.minute * minuteMs + dayMs) :
    startPosition (some p) (nowMs / minuteMs) = some p := by
  unfold minuteMs at *
  unfold dayMs at hday
  unfold startPosition maxCronCatchUpMinutes
  dsimp only
  rw [if_neg (by omega), if_pos (by omega)]

namespace CronCall

variable {timeout : ℕ}

/-- A poll moves the cursor forward, past everything that it has enqueued. -/
structure Forward (call : CronCall) : Prop where
  sorted : call.fired.Pairwise Before
  fromBefore : ∀ q ∈ call.fired, ∀ p, call.before = some p → ¬ q.Before p
  behind : ∀ q ∈ call.fired, ∀ p, call.after = some p → q.Before p
  kept : ∀ p, call.before = some p → ∃ p', call.after = some p' ∧ ¬ p'.Before p
  started : call.fired ≠ [] → ∃ p', call.after = some p'

variable {call : CronCall} {calls : List CronCall} {next : CronCall}

theorem Polled.forward (h : call.Polled cron timeout) : call.Forward := by
  cases h with
  | idle hf hafter =>
    refine ⟨by simp [hf], by simp [hf], by simp [hf], fun q hq => ?_, by simp [hf]⟩
    exact ⟨q, hafter.trans hq, by unfold Before; omega⟩
  | moved start p hstart hre _ hf hbehind =>
    obtain ⟨-, hge⟩ := startPosition_ge hstart
    have hsorted := dueSpan_sorted cron start (call.minute + 1)
    rw [← hf, pairwise_append] at hsorted
    refine ⟨hsorted.1, fun q hq r hr => ?_, fun q hq r hr => ?_, fun r hr => ?_,
      fun _ => ⟨_, hre.1⟩⟩
    · obtain ⟨_, -⟩ := mem_dueSpan.mp (hf ▸ mem_append_left _ hq)
      have hfrom := hge r hr
      unfold Before at *
      omega
    · obtain rfl := Option.mem_unique hre.1 hr
      exact hbehind q hq
    · have hfrom := hge r hr
      refine ⟨p, hre.1, ?_⟩
      unfold Before at *
      omega

/-- The polls of a run: each starts with the cursor that the previous one has left. -/
def Linked (calls : List CronCall) : Prop := calls.IsChain fun call next => next.before = call.after

theorem fired_sorted (hforward : ∀ call ∈ calls, call.Forward) (hlinked : Linked calls) :
    (calls.flatMap CronCall.fired).Pairwise Before ∧
      ∀ call, calls.head? = some call → ∀ p, call.before = some p →
        ∀ q ∈ calls.flatMap CronCall.fired, ¬ q.Before p := by
  induction calls with
  | nil => exact ⟨nil, by simp⟩
  | cons call calls ih =>
    have hcall := hforward call (mem_cons_self ..)
    have hlinked' : Linked calls := hlinked.of_cons
    obtain ⟨hsorted, hfrom⟩ := ih (fun c hc => hforward c (mem_cons_of_mem _ hc)) hlinked'
    -- what the later polls enqueue is not before the cursor of this one
    have hafter : ∀ p, call.after = some p → ∀ q ∈ calls.flatMap CronCall.fired, ¬ q.Before p := by
      intro p hp q hq
      cases calls with
      | nil => cases hq
      | cons next =>
        have hnext : next.before = call.after := (isChain_cons_cons.mp hlinked).1
        exact hfrom next rfl p (hnext.trans hp) q hq
    refine ⟨?_, ?_⟩
    · rw [flatMap_cons, pairwise_append]
      refine ⟨hcall.sorted, hsorted, fun q hq r hr => ?_⟩
      obtain ⟨p, hp⟩ := hcall.started (ne_nil_of_mem hq)
      have hbehind := hcall.behind q hq p hp
      have hlater := hafter p hp r hr
      unfold Before at *
      omega
    rintro _ hc p hp q hq
    obtain rfl := Option.some.inj hc
    rcases mem_append.mp (flatMap_cons ▸ hq) with hq | hq
    · exact hcall.fromBefore q hq p hp
    · obtain ⟨p', hp', _⟩ := hcall.kept p hp
      have hlater := hafter p' hp' q hq
      unfold Before at *
      omega

/-- The clock does not go back, polls are less than a day apart, and after a stop for lack of
capacity the next poll comes within a day of the pending minute. -/
structure OnTime (timeout : ℕ) (calls : List CronCall) : Prop where
  nondecreasing : calls.IsChain fun call next => call.nowMs ≤ next.nowMs
  frequent : calls.IsChain fun call next => next.nowMs < call.nowMs + dayMs
  drained : calls.IsChain fun call next =>
    ∀ p, call.Stopped p → next.nowMs < p.minute * minuteMs + dayMs
  inRange : ∀ call ∈ calls, call.nowMs + timeout < 2 ^ 64

theorem OnTime.tail (h : OnTime timeout (call :: calls)) : OnTime timeout calls :=
  ⟨h.nondecreasing.of_cons, h.frequent.of_cons, h.drained.of_cons,
    fun c hc => h.inRange c (mem_cons_of_mem _ hc)⟩

theorem minute_mono (h : call.nowMs ≤ next.nowMs) : call.minute ≤ next.minute :=
  Nat.div_le_div_right h

variable {p : CronPosition}

/-- A poll on time takes a prefix of what is due from its cursor on. -/
theorem Polled.exact (h : next.Polled cron timeout) (hre : call.Reached p)
    (hlink : next.before = call.after) (hmono : call.nowMs ≤ next.nowMs)
    (hontime : OnTime timeout (call :: next :: calls)) : ∃ q, next.Reached q ∧
      next.fired ++ dueSpan cron q (next.minute + 1) = dueSpan cron p (next.minute + 1) := by
  obtain ⟨hafter, _, hzero⟩ := hre
  rw [hafter] at hlink
  have hgap : next.nowMs < call.nowMs + dayMs := (isChain_cons_cons.mp hontime.frequent).1
  have hdrain := (isChain_cons_cons.mp hontime.drained).1
  have hminutes := minute_mono hmono
  -- neither a finished poll nor a stopped one is more than a day behind
  have hstart : p.minute ≤ next.minute → startPosition next.before next.minute = some p := by
    intro hle
    rw [hlink]
    refine startPosition_kept hle ?_
    rcases lt_or_ge call.minute p.minute with hdone | hstopped
    · unfold CronCall.minute minuteMs at *
      omega
    · exact hdrain p ⟨hafter, hstopped⟩
  cases h with
  | idle hf hkept hidle =>
    obtain ⟨r, hbefore, hahead⟩ | hover := hidle
    · obtain rfl := Option.mem_unique hlink hbefore
      refine ⟨p, ⟨hkept.trans hlink, by omega, fun hp => hzero (by omega)⟩, ?_⟩
      rw [hf, nil_append]
    · exact absurd (hontime.inRange next (by simp)) (not_lt.mpr hover)
  | moved _ r hstart' hre _ hf =>
    have hle : p.minute ≤ next.minute := by
      by_contra hlt
      rw [hlink, startPosition, if_pos (not_le.mp hlt)] at hstart'
      cases hstart'
    obtain rfl := Option.some.inj ((hstart hle).symm.trans hstart')
    exact ⟨r, hre, hf⟩

/-- What is due at the end of a run on time is what its polls have enqueued and what is
pending. -/
theorem fired_exact (hpolled : ∀ c ∈ calls, c.Polled cron timeout) (hre : call.Reached p)
    (hlinked : Linked (call :: calls)) (hontime : OnTime timeout (call :: calls)) :
    ∃ last q, (call :: calls).getLast? = some last ∧ call.minute ≤ last.minute ∧ last.Reached q ∧
      calls.flatMap CronCall.fired ++ dueSpan cron q (last.minute + 1) =
        dueSpan cron p (last.minute + 1) := by
  induction calls generalizing call p with
  | nil => exact ⟨call, p, rfl, le_rfl, hre, rfl⟩
  | cons next _ ih =>
    obtain ⟨hlink, hlinked'⟩ := isChain_cons_cons.mp hlinked
    have hmono := (isChain_cons_cons.mp hontime.nondecreasing).1
    obtain ⟨q, hq, hfirst⟩ := (hpolled next (mem_cons_self ..)).exact hre hlink hmono hontime
    obtain ⟨last, r, hlast, hle, hr, hrest⟩ :=
      ih (fun c hc => hpolled c (mem_cons_of_mem _ hc)) hq hlinked' hontime.tail
    have hminutes := minute_mono hmono
    refine ⟨last, r, by rw [getLast?_cons_cons, hlast], hminutes.trans hle, hr, ?_⟩
    have hp : p.minute ≤ next.minute + 1 := hre.2.1.trans (by omega)
    have hzero : p.minute = next.minute + 1 → p.registration = 0 := fun heq =>
      hre.2.2 (by have := hre.2.1; omega)
    rw [flatMap_cons, append_assoc, hrest,
      ← dueSpan_extend (succ_le_succ hle) hq.2.1 hq.2.2, ← append_assoc, hfirst,
      dueSpan_extend (succ_le_succ hle) hp hzero]

/-- A run of polls that starts without a cursor enqueues exactly what is scheduled from its
first minute on, up to what is pending at its end. -/
theorem fired_scheduled {first : CronCall} {rest : List CronCall}
    (hpolled : ∀ c ∈ first :: rest, c.Polled cron timeout) (hnone : first.before = none)
    (hlinked : Linked (first :: rest)) (hontime : OnTime timeout (first :: rest)) :
    ∃ last q, (first :: rest).getLast? = some last ∧ last.after = some q ∧
      (first :: rest).flatMap CronCall.fired ++ dueSpan cron q (last.minute + 1) =
        scheduled cron first.minute (last.minute + 1 - first.minute) := by
  obtain ⟨p, hre, hfirst⟩ : ∃ p, first.Reached p ∧
      first.fired ++ dueSpan cron p (first.minute + 1) =
        dueSpan cron ⟨first.minute, 0⟩ (first.minute + 1) := by
    cases hpolled first (mem_cons_self ..) with
    | idle _ _ hidle =>
      obtain ⟨_, hbefore, -⟩ | hover := hidle
      · cases hnone.symm.trans hbefore
      · exact absurd (hontime.inRange first (mem_cons_self ..)) (not_lt.mpr hover)
    | moved _ p hstart hre _ hf =>
      rw [hnone] at hstart
      obtain rfl := Option.some.inj hstart
      exact ⟨p, hre, hf⟩
  obtain ⟨last, q, hlast, hle, hq, hrest⟩ :=
    fired_exact (fun c hc => hpolled c (mem_cons_of_mem _ hc)) hre hlinked hontime
  refine ⟨last, q, hlast, hq.1, ?_⟩
  rw [flatMap_cons, append_assoc, hrest, ← dueSpan_start (by omega),
    ← dueSpan_extend (succ_le_succ hle) hre.2.1 hre.2.2, ← append_assoc, hfirst,
    dueSpan_extend (succ_le_succ hle) (le_succ _) fun _ => rfl]

theorem Polled.due (h : call.Polled cron timeout) (hp : p ∈ call.fired) :
    isDue cron p.minute p.registration = true := by
  cases h with
  | idle hf =>
    rw [hf] at hp
    cases hp
  | moved _ _ _ _ _ hf =>
    exact (mem_dueSpan.mp (hf ▸ mem_append_left _ hp)).2.2

/-- A pending pair is enqueued by the first poll that finds a free place in time. -/
theorem Polled.pending (h : call.Polled cron timeout) (hbefore : call.before = some p)
    (hdue : isDue cron p.minute p.registration = true) (hminute : p.minute ≤ call.minute)
    (hday : call.nowMs < p.minute * minuteMs + dayMs)
    (hrange : call.nowMs + timeout < 2 ^ 64) (hroom : 0 < call.room) : p ∈ call.fired := by
  cases h with
  | idle _ _ hidle =>
    obtain ⟨q, hq, hahead⟩ | hover := hidle
    · obtain rfl := Option.mem_unique hbefore hq
      omega
    · omega
  | moved _ q hstart _ _ hf _ hfull =>
    rw [hbefore, CronCall.minute, startPosition_kept hminute hday] at hstart
    obtain rfl := Option.some.inj hstart
    rw [show dueSpan cron p (call.minute + 1) = _ from if_pos (lt_succ_of_le hminute),
      dueRest_take hdue, cons_append] at hf
    cases hcases : call.fired with
    | nil =>
      rw [hcases, nil_append] at hf
      rcases lt_or_ge call.minute q.minute with hdone | hpending
      · rw [dueSpan_end hdone] at hf
        cases hf
      · exact absurd hcases (hfull hpending hroom)
    | cons =>
      rw [hcases, cons_append, cons.injEq] at hf
      rw [hf.1]
      exact mem_cons_self ..

end CronCall

end Tysel.Tasks
