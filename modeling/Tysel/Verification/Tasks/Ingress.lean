import Mathlib.Data.List.Chain
import Tysel.Verification.Tasks.Cron
import Tysel.Verification.Tasks.Connections

/-! The polls of an ingress move its cursor as the abstract polls do, whatever else happens to the
broker in between. -/

namespace Tysel.Tasks

open List WireTaskTrigger Option Except Nat Prod Table TaskRegistry List.IsChain CronExpression

open Tysel.Durable (TaskId checkedAdd)
open TaskIngress (perform)
open Tysel.Text

variable {J : Type} {T : Texts J} {null : J} {b : TaskRpcBroker J} {i : TaskIngress J}
  {reg : TaskRegistry}

/-! ## Registered expressions -/

theorem parse_source {source : String} {e : CronExpression} (h : parse source = .ok e) :
    e.source = source ∧ size source ≤ 128 ∧ source ≠ "" := by
  simp only [parse, bind_ok, reject_ok, not_lt] at h
  obtain ⟨-, hsize, hfields⟩ := h
  split at hfields
  · rename_i hsplit
    simp only [bind_ok, pure_ok] at hfields
    obtain ⟨-, -, -, -, -, -, -, -, -, -, rfl⟩ := hfields
    refine ⟨rfl, hsize, ?_⟩
    rintro rfl
    cases hsplit
  · cases hfields

/-- The names and expressions of a registration that the runtime can put on the wire. -/
def CronRegistration.Bounded (cr : CronRegistration) : Prop :=
  size cr.schedule.source ≤ 128 ∧ cr.schedule.source ≠ ""

theorem add_bounded {reg' : TaskRegistry} {definition : ModuleTaskDefinition}
    (h : reg.add definition = .ok reg') (hbounded : ∀ r ∈ reg.cron, r.Bounded) :
    ∀ r ∈ reg'.cron, r.Bounded := by
  unfold add at h
  split at h
  · simp only [bind_ok, pure_ok] at h
    obtain ⟨_, hparse, rfl⟩ := h
    obtain ⟨hsource, hsize, hne⟩ := parse_source hparse
    intro r hr
    rcases mem_append.mp hr with hr | hr
    · exact hbounded r hr
    · rw [mem_singleton.mp hr]
      exact ⟨hsource ▸ hsize, hsource ▸ hne⟩
  · split at h
    · cases h
    · obtain rfl := ok.inj h
      exact hbounded
  · simp only [bind_ok, pure_ok] at h
    obtain ⟨-, -, rfl⟩ := h
    exact hbounded

theorem fromDefinitions_bounded {definitions : List ModuleTaskDefinition}
    (h : fromDefinitions definitions = .ok reg) :
    ∀ r ∈ reg.cron, r.Bounded := by
  simp only [fromDefinitions, bind_ok, pure_ok] at h
  obtain ⟨folded, hfold, rfl⟩ := h
  intro r hr
  have hbounded : ∀ r ∈ folded.cron, r.Bounded :=
    foldlM_invariant (fun _ _ _ hb hadd => add_bounded hadd hb) hfold (by simp)
  exact hbounded r ((mem_insertionSort _).mp hr)

theorem cronTrigger_valid {name source : String} (hname : name ≠ "") (hsource : source ≠ "")
    (hnamesize : size name ≤ 128) (hsourcesize : size source ≤ 128) :
    (fromTaskTrigger (.cron name source)).validate = .ok () := by
  unfold Text.size at hnamesize hsourcesize
  have hfirst : name.utf8ByteSize < 2 ^ 64 := by omega
  have hsecond : name.utf8ByteSize + source.utf8ByteSize < 2 ^ 64 := by omega
  simp only [validate, fromTaskTrigger, fields,
    totalBytes, hname, hsource, if_false, checkedAdd, zero_add, if_pos hfirst,
    if_pos hsecond, ok_bind]
  exact reject_of_not _ (by unfold maxTaskTriggerBytes; omega)

/-! ## Fresh ids -/

/-- An operation stores no task under an id that it does not enqueue. -/
theorem perform_absent (hsound : b.Sound T) {op : BrokerOp J} {id : TaskId}
    (hop : ∀ t, op = .enqueue t → id ≠ t.info.id) (hnone : b.scheduler.tasks.get? id = none) :
    (b.perform T op).2.scheduler.tasks.get? id = none := by
  have hclaim : ∀ a, b.scheduler.claims.get? id ≠ some a := fun a hactive => by
    obtain ⟨_, ht, -⟩ := hsound.scheduler.running hactive
    rw [hnone] at ht
    cases ht
  have hkeep : ¬ op.Touches b id → (b.perform T op).2.scheduler.tasks.get? id = none := fun h =>
    (perform_untouched hsound op h).tasks.trans hnone
  cases op with
  | enqueue t => exact hkeep (hop t rfl)
  | requeueExpired | disconnectWorker =>
    refine hkeep ?_
    rintro ⟨a, hactive, -⟩
    exact hclaim a hactive
  | handle now envelope =>
    have htoken : ∀ lease : LeaseToken, ¬ ∃ a, lease.Live b.scheduler now id a := by
      rintro lease ⟨a, hlive⟩
      exact hclaim a hlive.stored
    obtain ⟨version, message⟩ := envelope
    cases message with
    | claim =>
      refine hkeep ?_
      rintro (hqueue | ⟨a, hactive, -⟩)
      · obtain ⟨t, ht, -⟩ := (hsound.scheduler.ok.queued id).mp hqueue
        rw [hnone] at ht
        cases ht
      · exact hclaim a hactive
    | renew _ lease | release _ lease | commit _ lease => exact hkeep (htoken lease)
    | cancel requestId taskId =>
      by_cases htouch : taskId.parse = .ok id
      · have hcancel : b.cancel requestId taskId = (.canceled requestId false, b) :=
          cancel_unknown requestId fun other hother => by
            rw [htouch] at hother
            obtain rfl := ok.inj hother
            exact hnone
        simp only [TaskRpcBroker.perform, TaskRpcBroker.handle]
        split
        · exact hnone
        · simp only [TaskRpcBroker.respond, hcancel]
          exact hnone
      · exact hkeep htouch
    | _ => exact hkeep fun h => h

namespace TaskIngress

/-- What a poll relies on: the ids that the counter has still to hand out are free. -/
structure Ok (T : Texts J) (i : TaskIngress J) : Prop where
  broker : i.broker.Sound T
  fresh : ∀ id : TaskId, i.nextId ≤ id.val → id.val < 2 ^ 64 →
    i.broker.scheduler.tasks.get? id = none
  bounded : ∀ r ∈ i.registry.cron, r.Bounded ∧ r.name ≠ "" ∧ size r.name ≤ 128

def cronTask (null : J) (i : TaskIngress J) (cr : CronRegistration) (minute now : ℕ) : Task J :=
  Task.new ⟨Fin.ofNat (2 ^ 128) i.nextId, i.applicationId, none,
      some ("cron:" ++ cr.name ++ ":" ++ toString minute), none⟩
    (.cron cr.name cr.schedule.source)
    (some (UInt64.ofNat (now + i.requestTimeoutMs))) null

/-- The ingress after a poll has enqueued the task of a pair. -/
def admitted (null : J) (i : TaskIngress J) (cr : CronRegistration)
    (minute now : ℕ) : TaskIngress J :=
  { i with
    nextId := i.nextId + 1
    broker := ⟨i.broker.scheduler.admitted
      ((cronTask null i cr minute now).in .queued), i.broker.outcomes⟩ }

/-- The submission of a pair. -/
def fire (T : Texts J) (null : J) (now minute : ℕ) (cr : CronRegistration)
    (i : TaskIngress J) : Except TaskIngressError TaskId × TaskIngress J :=
  i.submit T now (some ("cron:" ++ cr.name ++ ":" ++ toString minute))
    (.cron cr.name cr.schedule.source) null

section Submit

variable {cr : CronRegistration} {now : ℕ}

theorem nextId_val (h : i.nextId + 1 < 2 ^ 64) :
    (Fin.ofNat (2 ^ 128) i.nextId : TaskId).val = i.nextId := by
  exact mod_eq_of_lt (by omega)

/-- A poll with a free id, room and a deadline in range succeeds in enqueueing. -/
theorem Ok.submit_cron (h : i.Ok T) (minute : ℕ) (hmem : cr ∈ i.registry.cron)
    (hnull : size (T.toVec null) ≤ maxTaskInputBytes) (hid : i.nextId + 1 < 2 ^ 64)
    (hroom : remainingCapacity i.broker ≠ 0) (hclock : now + i.requestTimeoutMs < 2 ^ 64) :
    fire T null now minute cr i = (.ok (Fin.ofNat (2 ^ 128) i.nextId),
      admitted null i cr minute now) := by
  obtain ⟨⟨hsize, hne⟩, hname, hnamesize⟩ := h.bounded cr hmem
  have hreserve : reserveTaskId i.nextId = .ok (Fin.ofNat (2 ^ 128) i.nextId, i.nextId + 1) := by
    simp only [reserveTaskId, checkedAdd, if_pos hid]
  have hdeadline : deadline now i.requestTimeoutMs =
      .ok (UInt64.ofNat (now + i.requestTimeoutMs)) := by
    simp only [deadline, checkedAdd, if_pos hclock]
  have hdeliver : Deliverable T (cronTask null i cr minute now) :=
    ⟨cronTrigger_valid hname hne hnamesize hsize, hnull⟩
  have hfresh : i.broker.scheduler.tasks.get?
      (cronTask null i cr minute now).info.id = none :=
    h.fresh _ (nextId_val hid).ge (by
      have hval := nextId_val hid
      change (Fin.ofNat (2 ^ 128) i.nextId).val < _
      omega)
  have henqueue := enqueue_admits i.broker rfl hdeliver hfresh
    (by unfold remainingCapacity at hroom; omega)
  simp only [fire, submit, hreserve, hdeadline]
  rw [show Task.new _ _ _ null = cronTask null i cr minute now from rfl, henqueue]
  rfl

variable (key : Option String) (trigger : TaskTrigger) (input : J)

theorem submit_exhausted (hid : 2 ^ 64 ≤ i.nextId + 1) :
    i.submit T now key trigger input = (.error .taskIdExhausted, i) := by
  simp only [submit, reserveTaskId, checkedAdd, if_neg (not_lt.mpr hid)]

theorem submit_clock (hid : i.nextId + 1 < 2 ^ 64) (hclock : 2 ^ 64 ≤ now + i.requestTimeoutMs) :
    i.submit T now key trigger input = (.error .clock, { i with nextId := i.nextId + 1 }) := by
  simp only [submit, reserveTaskId, deadline, checkedAdd, if_pos hid, if_neg (not_lt.mpr hclock)]

/-- A submission leaves the ingress, or takes an id and may enqueue the task of that id. -/
theorem submit_cases (T : Texts J) (i : TaskIngress J) (now : ℕ) :
    (i.submit T now key trigger input).2 = i ∨ i.nextId + 1 < 2 ^ 64 ∧
      ((i.submit T now key trigger input).2 = { i with nextId := i.nextId + 1 } ∨
        ∃ t : Task J, t.info.id = Fin.ofNat (2 ^ 128) i.nextId ∧
          (i.submit T now key trigger input).2 = { i with
            nextId := i.nextId + 1
            broker := (i.broker.perform T (.enqueue t)).2 }) := by
  rcases lt_or_ge (i.nextId + 1) (2 ^ 64) with hid | hid
  · refine .inr ⟨hid, ?_⟩
    rcases lt_or_ge (now + i.requestTimeoutMs) (2 ^ 64) with hclock | hclock
    · refine .inr ⟨Task.new ⟨Fin.ofNat (2 ^ 128) i.nextId, i.applicationId, none, key,
        none⟩ trigger (some (UInt64.ofNat (now + i.requestTimeoutMs))) input, rfl, ?_⟩
      simp only [submit, reserveTaskId, deadline, checkedAdd, if_pos hid, if_pos hclock,
        TaskRpcBroker.perform]
      split <;> rename_i henqueue <;> rw [henqueue]
    · exact .inl (congrArg snd (submit_clock key trigger input hid hclock))
  · exact .inl (congrArg snd (submit_exhausted key trigger input hid))

theorem Ok.reserved (h : i.Ok T) {nextId : ℕ} (hle : i.nextId ≤ nextId) :
    Ok T { i with nextId := nextId } :=
  ⟨h.broker, fun id hid => h.fresh id (hle.trans hid), h.bounded⟩

/-- An enqueued task of the counter's own id keeps the later ids free. -/
theorem Ok.submit (h : i.Ok T) (now : ℕ) : (i.submit T now key trigger input).2.Ok T := by
  obtain heq | ⟨hid, heq | ⟨_, ht, heq⟩⟩ := submit_cases key trigger input T i now <;> rw [heq]
  · exact h
  · exact h.reserved (le_succ _)
  refine ⟨h.broker.perform _, fun id hle hlt => ?_, h.bounded⟩
  refine perform_absent h.broker ?_ (h.fresh id (by dsimp only at hle; omega) hlt)
  rintro _ hother rfl
  obtain rfl := BrokerOp.enqueue.inj hother
  rw [ht, nextId_val hid] at hle
  exact absurd hle (by dsimp only; omega)

/-- What every step keeps. -/
structure Fixed (i i' : TaskIngress J) : Prop where
  registry : i'.registry = i.registry
  timeout : i'.requestTimeoutMs = i.requestTimeoutMs
  nextId : i.nextId ≤ i'.nextId

theorem Fixed.refl (i : TaskIngress J) : Fixed i i := ⟨rfl, rfl, le_rfl⟩

theorem Fixed.trans {i₁ i₂ i₃ : TaskIngress J} (h : Fixed i₁ i₂) (h' : Fixed i₂ i₃) : Fixed i₁ i₃ :=
  ⟨h'.1.trans h.1, h'.2.trans h.2, h.3.trans h'.3⟩

theorem submit_fixed (i : TaskIngress J) (now : ℕ) : Fixed i (i.submit T now key trigger input).2 ∧
      (i.submit T now key trigger input).2.nextCronPosition = i.nextCronPosition := by
  obtain heq | ⟨-, heq | ⟨_, -, heq⟩⟩ := submit_cases key trigger input T i now <;> rw [heq]
  · exact ⟨.refl i, rfl⟩
  · exact ⟨⟨rfl, rfl, le_succ _⟩, rfl⟩
  · exact ⟨⟨rfl, rfl, le_succ _⟩, rfl⟩

end Submit

/-! ## Polls -/

def Firing.Stored (f : Firing) (i : TaskIngress J) : Prop :=
  ∃ cr t, i.registry.cron[f.position.registration]? = some cr ∧ f.task.handler = cr.name ∧
    f.task.scheduledAtMs = f.position.minute * minuteMs ∧
    i.broker.scheduler.tasks.get? f.task.id = some t ∧ t.state = .queued ∧
    t.trigger = .cron cr.name cr.schedule.source ∧
    t.info.idempotencyKey = some ("cron:" ++ cr.name ++ ":" ++ toString f.position.minute)

/-- A poll adds the tasks of its firings to the broker, and nothing else. -/
structure Grown (T : Texts J) (now : ℕ) (before after : TaskIngress J) (fresh : List Firing) :
    Prop where
  ok : after.Ok T
  registry : after.registry = before.registry
  timeout : after.requestTimeoutMs = before.requestTimeoutMs
  cursor : after.nextCronPosition = before.nextCronPosition
  nextId : before.nextId ≤ after.nextId
  stored : ∀ f ∈ fresh, f.Stored after
  kept : ∀ id t, before.broker.scheduler.tasks.get? id = some t →
    after.broker.scheduler.tasks.get? id = some t
  added : ∀ id t, after.broker.scheduler.tasks.get? id = some t →
    before.broker.scheduler.tasks.get? id = some t ∨ ∃ f ∈ fresh, f.task.id = id
  same : fresh = [] → after.broker = before.broker
  inRange : fresh ≠ [] → now + before.requestTimeoutMs < 2 ^ 64

theorem Grown.reserved (h : i.Ok T) (now : ℕ) {nextId : ℕ} (hle : i.nextId ≤ nextId) :
    Grown T now i { i with nextId := nextId } [] :=
  ⟨h.reserved hle, rfl, rfl, rfl, hle, by simp, fun _ _ h => h, fun _ _ h => .inl h, fun _ => rfl,
    fun h => absurd rfl h⟩

theorem Grown.refl (h : i.Ok T) (now : ℕ) : Grown T now i i [] := .reserved h now le_rfl

variable {now : ℕ} {op : IngressOp J}

theorem Grown.trans {i₁ i₂ i₃ : TaskIngress J} {fs gs : List Firing} (h : Grown T now i₁ i₂ fs)
    (h' : Grown T now i₂ i₃ gs) : Grown T now i₁ i₃ (fs ++ gs) := by
  refine ⟨h'.ok, h'.registry.trans h.registry, h'.timeout.trans h.timeout,
    h'.cursor.trans h.cursor, h.nextId.trans h'.nextId, fun f hf => ?_,
    fun id t ht => h'.kept id t (h.kept id t ht), fun id t ht => ?_,
    fun hnil => ?_, fun hne => ?_⟩
  · rcases mem_append.mp hf with hf | hf
    · obtain ⟨cr, t, hreg, hname, hms, ht, hrest⟩ := h.stored f hf
      exact ⟨cr, t, h'.registry ▸ hreg, hname, hms, h'.kept _ _ ht, hrest⟩
    · exact h'.stored f hf
  · rcases h'.added id t ht with hold | ⟨f, hf, hid⟩
    · rcases h.added id t hold with hold | ⟨f, hf, hid⟩
      · exact .inl hold
      · exact .inr ⟨f, mem_append_left _ hf, hid⟩
    · exact .inr ⟨f, mem_append_right _ hf, hid⟩
  · obtain ⟨hfs, hgs⟩ := append_eq_nil_iff.mp hnil
    exact (h'.same hgs).trans (h.same hfs)
  · by_cases hfs : fs = []
    · rw [← h.timeout]
      exact h'.inRange fun hgs => hne (by rw [hfs, hgs, append_nil])
    · exact h.inRange hfs

def firing (i : TaskIngress J) (cr : CronRegistration) (minute index : ℕ) : Firing :=
  ⟨⟨minute, index⟩, ⟨Fin.ofNat (2 ^ 128) i.nextId, cr.name, minute * minuteMs⟩⟩

theorem Grown.admitted (h : i.Ok T) {cr : CronRegistration} {minute index : ℕ}
    (hreg : i.registry.cron[index]? = some cr) (hid : i.nextId + 1 < 2 ^ 64)
    (hclock : now + i.requestTimeoutMs < 2 ^ 64)
    (hfire : fire T null now minute cr i =
      (.ok (Fin.ofNat (2 ^ 128) i.nextId), admitted null i cr minute now)) :
    Grown T now i (admitted null i cr minute now)
      [firing i cr minute index] := by
  have hok : (fire T null now minute cr i).2.Ok T := h.submit ..
  rw [hfire] at hok
  have hval := nextId_val hid
  have hfresh := h.fresh (Fin.ofNat (2 ^ 128) i.nextId) hval.ge (by omega)
  refine ⟨hok, rfl, rfl, rfl, le_succ _, fun f hf => ?_, fun id t ht => ?_,
    fun id t ht => ?_, by simp, fun _ => hclock⟩
  · rw [mem_singleton.mp hf]
    exact ⟨cr, (cronTask null i cr minute now).in .queued, hreg, rfl,
      rfl, get?_insert_self .., rfl, rfl, rfl⟩
  · have hne : id ≠ Fin.ofNat (2 ^ 128) i.nextId := by
      rintro rfl
      rw [hfresh] at ht
      cases ht
    exact (get?_insert_ne hne).trans ht
  · by_cases hne : id = Fin.ofNat (2 ^ 128) i.nextId
    · exact .inr ⟨_, mem_singleton.mpr rfl, hne.symm⟩
    · exact .inl ((get?_insert_ne hne).symm.trans ht)

/-- Both loops of a poll as one, over the pairs that are due. -/
def fireAll (T : Texts J) (null : J) (now : ℕ) (cron : List CronRegistration) :
    List CronPosition → TaskIngress J → CronExit × List Firing × TaskIngress J
  | [], i => (.passed, [], i)
  | p :: rest, i =>
    match cron[p.registration]? with
    | none => fireAll T null now cron rest i
    | some cr =>
      if remainingCapacity i.broker = 0 then (.full p, [], i)
      else
        match fire T null now p.minute cr i with
        | (.error e, i) => (.failed e, [], i)
        | (.ok id, i) =>
          let later := fireAll T null now cron rest i
          (later.1, ⟨p, id, cr.name, p.minute * minuteMs⟩ :: later.2.1, later.2.2)

variable {cron : List CronRegistration}

theorem fireAll_fixed (cron : List CronRegistration) (ps : List CronPosition)
    (i : TaskIngress J) : Fixed i (fireAll T null now cron ps i).2.2 := by
  have hfire (minute cr) i : Fixed i (fire T null now minute cr i).2 := (submit_fixed ..).1
  fun_induction fireAll T null now cron ps i with
  | case1 | case3 => exact .refl _
  | case2 _ _ _ _ ih => exact ih
  | case4 p _ i cr _ _ _ _ hresult =>
    have hfixed := hfire p.minute cr i
    rwa [hresult] at hfixed
  | case5 p _ i cr _ _ _ _ hresult _ ih =>
    have hfixed := hfire p.minute cr i
    rw [hresult] at hfixed
    exact hfixed.trans ih

theorem fireAll_append (ps qs : List CronPosition) (i : TaskIngress J) :
    fireAll T null now cron (ps ++ qs) i = match fireAll T null now cron ps i with
      | (.passed, fired, i) =>
        let later := fireAll T null now cron qs i
        (later.1, fired ++ later.2.1, later.2.2)
      | result => result := by
  fun_induction fireAll T null now cron ps i with
  | case1 => rfl
  | case2 _ _ _ hreg ih => simp only [cons_append, fireAll, hreg, ih]
  | case3 _ _ _ _ hreg hroom =>
    simp only [cons_append, fireAll, hreg, if_pos hroom]
  | case4 _ _ _ _ hreg hroom _ _ hresult =>
    simp only [cons_append, fireAll, hreg, if_neg hroom, hresult]
  | case5 _ rest _ _ hreg hroom _ after hresult later ih =>
    simp only [cons_append, fireAll, hreg, if_neg hroom, hresult, ih, later]
    rcases fireAll T null now cron rest after with ⟨_ | _ | _, -⟩ <;> rfl

theorem minuteLoop_eq {rest : List CronRegistration} {minute index : ℕ}
    (hrest : cron.drop index = rest) (fired : List Firing) (i : TaskIngress J) :
    minuteLoop T null now minute rest index fired i =
      let result := fireAll T null now cron (dueRest cron minute index) i
      (result.1, fired ++ result.2.1, result.2.2) := by
  induction rest generalizing index fired i with
  | nil =>
    rw [dueRest, Nat.sub_eq_zero_of_le (drop_eq_nil_iff.mp hrest)]
    simp only [minuteLoop, range'_zero, filter_nil, map_nil, fireAll, append_nil]
  | cons cr rest ih =>
    have hget : cron[index]? = some cr := by
      rw [← head?_drop, hrest, head?_cons]
    have hnext : cron.drop (index + 1) = rest := by
      rw [← tail_drop, hrest, tail_cons]
    have hdue : isDue cron minute index = cr.schedule.matchesUnixMs (minute * minuteMs) := by
      rw [isDue, hget, any_some]
    rw [minuteLoop, ← hdue]
    cases hmatch : isDue cron minute index with
    | false => rw [if_pos rfl, ih hnext, dueRest_skip hmatch]
    | true =>
      rw [if_neg (by decide)]
      simp only [dueRest_take hmatch, fireAll, hget, ih hnext, fire]
      split
      · rw [append_nil]
      · rcases i.submit T now _ _ null with ⟨_ | _, -⟩
        · rw [append_nil]
        · simp only [append_assoc, singleton_append]

/-- The outer loop fires the span of its minutes. -/
theorem cronLoop_eq (T : Texts J) (null : J) (now : ℕ) {minutes limit : ℕ} {pos : CronPosition}
    (hlimit : pos.minute + minutes = limit) (hnow : (limit - 1) * minuteMs < 2 ^ 64)
    (hcron : i.registry.cron = cron) (fired : List Firing) :
    let result := fireAll T null now cron (dueSpan cron pos limit) i
    ∃ last, cronLoop T null now minutes pos fired i =
        (result.1, last, fired ++ result.2.1, result.2.2) ∧
      (result.1 = .passed → minutes ≠ 0 ∨ pos.registration = 0 → last = ⟨limit, 0⟩) := by
  induction minutes generalizing pos fired i with
  | zero =>
    refine ⟨pos, ?_, fun _ hzero => ?_⟩
    · rw [dueSpan_end (by omega)]
      simp only [cronLoop, fireAll, append_nil]
    · obtain ⟨minute, cr⟩ := pos
      obtain rfl : cr = 0 := hzero.resolve_left (by simp)
      rw [← hlimit]
      rfl
  | succ minutes ih =>
    have hms : pos.minute * minuteMs < 2 ^ 64 := (Nat.mul_le_mul_right _ (by omega)).trans_lt hnow
    have hsaturate : min (pos.minute + 1) (2 ^ 64 - 1) = pos.minute + 1 := by
      unfold minuteMs at hms
      omega
    have hspan : dueSpan cron pos limit = dueRest cron pos.minute pos.registration ++
          dueSpan cron ⟨pos.minute + 1, 0⟩ limit := by
      rw [dueSpan, if_pos (by omega), dueSpan_start (by omega), Nat.sub_sub]
    have hfixed : Fixed i (fireAll T null now cron (dueRest cron pos.minute
      pos.registration) i).2.2 := fireAll_fixed ..
    rw [cronLoop, if_pos hms, hcron, minuteLoop_eq rfl, hspan, fireAll_append, hsaturate]
    generalize fireAll T null now cron _ i = first at hfixed ⊢
    obtain ⟨_ | _ | _, first, _⟩ := first
    · obtain ⟨last, hloop, hlast⟩ := ih (show (⟨pos.minute + 1, 0⟩ : CronPosition).minute +
        minutes = limit by dsimp only; omega) (hfixed.registry ▸ hcron) (fired ++ first)
      refine ⟨last, ?_, fun hpassed _ => hlast hpassed (.inr rfl)⟩
      dsimp only
      rw [hloop, append_assoc]
    · exact ⟨pos, rfl, nofun⟩
    · exact ⟨pos, rfl, nofun⟩

/-- How a poll ends that leaves some of its pairs. -/
def FireEnd (i : TaskIngress J) (now : ℕ) (fresh : List Firing)
    (left : List CronPosition) : CronExit → Prop
  | .passed => left = []
  | .full p => left.head? = some p ∧ (fresh = [] → remainingCapacity i.broker = 0)
  | .failed _ => fresh = [] ∧ 2 ^ 64 ≤ now + i.requestTimeoutMs

theorem fireAll_spec (now : ℕ) (hnull : size (T.toVec null) ≤ maxTaskInputBytes)
    {ps : List CronPosition} (hcron : i.registry.cron = cron)
    (hps : ∀ p ∈ ps, p.registration < cron.length) (h : i.Ok T)
    (hids : (fireAll T null now cron ps i).2.2.nextId + 1 < 2 ^ 64) :
    let result := fireAll T null now cron ps i
    ∃ left, result.2.1.map Firing.position ++ left = ps ∧ Grown T now i result.2.2 result.2.1 ∧
      FireEnd i now result.2.1 left result.1 := by
  induction ps generalizing i with
  | nil => exact ⟨[], rfl, .refl h now, rfl⟩
  | cons p rest ih =>
    have hlt := hps p (mem_cons_self ..)
    have hget : cron[p.registration]? = some cron[p.registration] := getElem?_eq_getElem hlt
    have hmem : cron[p.registration] ∈ i.registry.cron := hcron ▸ getElem_mem hlt
    simp only [fireAll, hget] at hids ⊢
    split at hids
    next hroom =>
      rw [if_pos hroom]
      exact ⟨p :: rest, rfl, .refl h now, rfl, fun _ => hroom⟩
    next hroom =>
      rw [if_neg hroom]
      rcases lt_or_ge (i.nextId + 1) (2 ^ 64) with hid | hid
      · rcases lt_or_ge (now + i.requestTimeoutMs) (2 ^ 64) with hclock | hclock
        · have hfire := h.submit_cron p.minute hmem hnull hid hroom hclock
          have hfirst := Grown.admitted h (by rw [hcron]; exact hget) hid hclock hfire
          rw [hfire] at hids ⊢
          obtain ⟨left, hleft, hgrown, hend⟩ := ih (hfirst.registry ▸ hcron)
            (fun q hq => hps q (mem_cons_of_mem _ hq)) hfirst.ok hids
          refine ⟨left, congrArg (cons p) hleft, hfirst.trans hgrown, ?_⟩
          revert hend
          cases (fireAll T null now cron rest _).1 with
          | passed => exact id
          | full => exact fun hend => ⟨hend.1, by simp⟩
          | failed => exact fun hend => absurd hend.2 (not_le.mpr hclock)
        · rw [fire, submit_clock _ _ _ hid hclock]
          exact ⟨p :: rest, rfl, .reserved h now (le_succ _), rfl, hclock⟩
      · rw [fire, submit_exhausted _ _ _ hid] at hids
        exact absurd hids (not_lt.mpr hid)

def poll (T : Texts J) (null : J) (i : TaskIngress J) (now : ℕ) : CronCall :=
  ⟨now, i.nextCronPosition, (i.enqueueDueCron T null now).2.1.map Firing.position,
    (i.enqueueDueCron T null now).2.2.nextCronPosition,
    remainingCapacity i.broker⟩

/-- What a poll returns and leaves in the broker. -/
structure PollResult (T : Texts J) (null : J) (i : TaskIngress J) (now : ℕ) : Prop where
  triggered : ∀ tasks, (i.enqueueDueCron T null now).1 = .ok tasks →
    tasks = (i.enqueueDueCron T null now).2.1.map Firing.task
  failed : ∀ e, (i.enqueueDueCron T null now).1 = .error e → (i.enqueueDueCron T null now).2.1 = []
  grown : ∃ after, Grown T now i after (i.enqueueDueCron T null now).2.1 ∧
    (i.enqueueDueCron T null now).2.2 = { after with
      nextCronPosition := (i.enqueueDueCron T null now).2.2.nextCronPosition }

theorem PollResult.of_ok (fired : List Firing) {after : TaskIngress J}
    {cursor : Option CronPosition} (hcall : i.enqueueDueCron T null now =
      (.ok (fired.map Firing.task), fired, { after with nextCronPosition := cursor }))
    (hgrown : Grown T now i after fired) : PollResult T null i now := by
  refine ⟨?_, ?_, ?_⟩
  · rw [hcall]
    exact fun tasks htasks => (ok.inj htasks).symm
  · rw [hcall]
    rintro - ⟨⟩
  · rw [hcall]
    exact ⟨after, hgrown, rfl⟩

theorem enqueueDueCron_eq (hnow : now < 2 ^ 64) {start : CronPosition}
    (hstart : startPosition i.nextCronPosition (now / minuteMs) = some start)
    {exit : CronExit} {fired : List Firing} {after : TaskIngress J}
    (hfire : fireAll T null now i.registry.cron
      (dueSpan i.registry.cron start (now / minuteMs + 1)) i = (exit, fired, after)) :
    i.enqueueDueCron T null now = match exit with
      | .passed => (.ok (fired.map Firing.task), fired,
          { after with nextCronPosition := some ⟨now / minuteMs + 1, 0⟩ })
      | .full p => (.ok (fired.map Firing.task), fired, { after with nextCronPosition := some p })
      | .failed e => (.error e, fired, after) := by
  have hminute := (startPosition_ge hstart).1
  obtain ⟨_, hloop, hlast⟩ := cronLoop_eq T null now
    (show start.minute + (now / minuteMs + 1 - start.minute) = now / minuteMs + 1 by omega)
    ((div_mul_le_self now minuteMs).trans_lt hnow) rfl []
  rw [hfire] at hloop hlast
  rw [enqueueDueCron, hstart]
  cases exit with
  | passed =>
    rw [hlast rfl (.inl (by omega))] at hloop
    simp only [hloop, nil_append]
  | _ => simp only [hloop, nil_append]

theorem enqueueDueCron_spec (hnull : size (T.toVec null) ≤ maxTaskInputBytes) (hnow : now < 2 ^ 64)
    (h : i.Ok T) (hids : (i.enqueueDueCron T null now).2.2.nextId + 1 < 2 ^ 64) :
    PollResult T null i now ∧ (poll T null i now).Polled i.registry.cron i.requestTimeoutMs := by
  cases hstart : startPosition i.nextCronPosition (now / minuteMs) with
  | none =>
    have hcall : i.enqueueDueCron T null now = (.ok [], [], i) := by
      rw [enqueueDueCron, hstart]
    refine ⟨.of_ok [] hcall (.refl h now), ?_⟩
    simp only [poll, hcall]
    refine .idle rfl rfl (.inl ?_)
    unfold startPosition at hstart
    split at hstart
    · split_ifs at hstart with hahead
      exact ⟨_, ‹_›, hahead⟩
    · cases hstart
  | some start =>
    have hdue (p) (hp : p ∈ dueSpan i.registry.cron start (now / minuteMs + 1)) :
        p.registration < i.registry.cron.length := by
      obtain ⟨_, hr, -⟩ := (any_eq_true _ _).mp (mem_dueSpan.mp hp).2.2
      exact (List.getElem?_eq_some_iff.mp hr).1
    have hspec := fireAll_spec now hnull rfl hdue h
    rcases hfire : fireAll T null now i.registry.cron
      (dueSpan i.registry.cron start (now / minuteMs + 1)) i with ⟨exit, fired, after⟩
    have hcall := enqueueDueCron_eq hnow hstart hfire
    rw [hcall] at hids
    rw [hfire] at hspec
    cases exit with
    | passed =>
      obtain ⟨-, hleft, hgrown, rfl⟩ := hspec hids
      refine ⟨.of_ok fired hcall hgrown, ?_⟩
      simp only [poll, hcall]
      refine .moved start ⟨now / minuteMs + 1, 0⟩ hstart ⟨rfl, le_rfl, fun _ => rfl⟩ ?_
        ((congrArg _ (dueSpan_end le_rfl)).trans hleft)
        (fun q hq => .inl (mem_dueSpan.mp (hleft ▸ mem_append_left _ hq)).2.1)
        fun hle => absurd hle (not_succ_le_self _)
      have hminute := (startPosition_ge hstart).1
      simp only [CronPosition.Before]
      omega
    | full p =>
      obtain ⟨left, hleft, hgrown, hhead, hroom⟩ := hspec hids
      refine ⟨.of_ok fired hcall hgrown, ?_⟩
      obtain ⟨left, rfl⟩ := head?_eq_some_iff.mp hhead
      obtain ⟨hspan, hbehind, hlater, hminute⟩ := dueSpan_split hleft
      simp only [poll, hcall]
      refine .moved start p hstart ⟨rfl, hminute.le, fun heq => absurd heq hminute.ne⟩ hlater ?_
        hbehind fun _ hfree hnil => ?_
      · exact (congrArg _ hspan).trans hleft
      · have hzero := hroom (map_eq_nil_iff.mp hnil)
        dsimp only at hfree
        omega
    | failed =>
      obtain ⟨-, -, hgrown, rfl, hclock⟩ := hspec hids
      refine ⟨⟨?_, ?_, ?_⟩, ?_⟩
      · rw [hcall]
        rintro - ⟨⟩
      · rw [hcall]
        exact fun _ _ => rfl
      · rw [hcall]
        exact ⟨after, hgrown, rfl⟩
      · simp only [poll, hcall]
        exact .idle rfl hgrown.cursor (.inr hclock)

/-! ## Runs -/

/-- A task that is enqueued past the ingress does not use an id of its counter. -/
def Foreign (i : TaskIngress J) : IngressOp J → Prop
  | .broker (.enqueue t) => t.info.id.val < i.nextId ∨ 2 ^ 64 ≤ t.info.id.val
  | _ => True

theorem perform_fixed (i : TaskIngress J) (op : IngressOp J) : Fixed i (i.perform T null op).2 := by
  cases op with
  | cron now =>
    cases hstart : startPosition i.nextCronPosition (now.toNat / minuteMs) with
    | none =>
      simp only [perform, enqueueDueCron, hstart]
      exact .refl i
    | some start =>
      rcases hfire : fireAll T null now.toNat i.registry.cron (dueSpan
        i.registry.cron start (now.toNat / minuteMs + 1)) i with ⟨exit, fired, after⟩
      have hfixed : Fixed i (exit, fired, after).2.2 := hfire ▸ fireAll_fixed ..
      rw [perform, enqueueDueCron_eq now.toNat_lt hstart hfire]
      cases exit <;> exact ⟨hfixed.1, hfixed.2, hfixed.3⟩
  | queue | mcp =>
    simp only [perform, enqueueQueue, enqueueMcp]
    split
    · exact .refl i
    · exact (submit_fixed ..).1
  | broker => exact ⟨rfl, rfl, le_rfl⟩

theorem Ok.perform (hnull : size (T.toVec null) ≤ maxTaskInputBytes) (h : i.Ok T)
    (hforeign : i.Foreign op) (hids : (i.perform T null op).2.nextId + 1 < 2 ^ 64) :
    (i.perform T null op).2.Ok T := by
  cases op with
  | cron now =>
    obtain ⟨⟨-, -, _, hgrown, hafter⟩, -⟩ := enqueueDueCron_spec hnull now.toNat_lt h hids
    simp only [perform]
    rw [hafter]
    exact ⟨hgrown.ok.broker, hgrown.ok.fresh, hgrown.ok.bounded⟩
  | queue | mcp =>
    simp only [perform, enqueueQueue, enqueueMcp]
    split
    · exact h
    · exact h.submit ..
  | broker op =>
    refine ⟨h.broker.perform op, fun id hle hlt => ?_, h.bounded⟩
    refine perform_absent h.broker ?_ (h.fresh id hle hlt)
    rintro t rfl rfl
    have hout : t.info.id.val < i.nextId ∨ 2 ^ 64 ≤ t.info.id.val := hforeign
    dsimp only [perform] at hle
    omega

def cronCalls (tr : List (Entry (TaskIngress J) (IngressOp J) (List Firing))) : List CronCall :=
  tr.filterMap fun e =>
    match e.input with
    | .cron now => some ⟨now.toNat, e.before.nextCronPosition,
        e.output.map Firing.position, e.after.nextCronPosition, remainingCapacity e.before.broker⟩
    | _ => none

section

variable (i : TaskIngress J)

theorem perform_cursor (hop : ∀ now, op ≠ .cron now) :
    (i.perform T null op).2.nextCronPosition = i.nextCronPosition := by
  cases op with
  | cron now => exact absurd rfl (hop now)
  | queue | mcp =>
    simp only [perform, enqueueQueue, enqueueMcp]
    split
    · rfl
    · exact (submit_fixed ..).2
  | broker => rfl

theorem cronCalls_linked (ops : List (IngressOp J)) :
    CronCall.Linked (cronCalls (trace (perform T null) i ops)) ∧
      ∀ call, (cronCalls (trace (perform T null) i ops)).head? = some call →
        call.before = i.nextCronPosition := by
  induction ops generalizing i with
  | nil => exact ⟨nil, by simp [cronCalls]⟩
  | cons op _ ih =>
    obtain ⟨hlinked, hhead⟩ := ih (i.perform T null op).2
    cases op with
    | cron =>
      refine ⟨hlinked.cons fun next hnext => hhead next hnext, ?_⟩
      intro call hcall
      obtain rfl := some.inj hcall
      rfl
    | _ =>
      refine ⟨hlinked, fun call hcall => ?_⟩
      rw [hhead call hcall, perform_cursor i (by simp)]

end

section Run

variable {i₀ : TaskIngress J} {ops : List (IngressOp J)}
  (hnull : size (T.toVec null) ≤ maxTaskInputBytes) (hinit : i₀.Ok T)
  (hforeign : ∀ e ∈ trace (perform T null) i₀ ops, e.before.Foreign e.input)
  (hids : (run (perform T null) i₀ ops).nextId + 1 < 2 ^ 64)

include hnull hinit hforeign hids

theorem run_polls : ∀ e ∈ trace (perform T null) i₀ ops, ∀ now : UInt64, e.input = .cron now →
      PollResult T null e.before now.toNat ∧
      (poll T null e.before now.toNat).Polled i₀.registry.cron i₀.requestTimeoutMs ∧
      e = entry (perform T null) e.before e.input := by
  have hsteps : ∀ e ∈ trace (perform T null) i₀ ops,
      e.before.Foreign e.input ∧ (e.before.perform T null e.input).2.nextId + 1 < 2 ^ 64 := by
    intro e he
    refine ⟨hforeign e he, ?_⟩
    have hle := (trace_measure_le _ i₀ (fun i op => (perform_fixed i op).3) ops).2 e he
    obtain ⟨_, _, -, rfl⟩ := mem_trace _ _ he
    exact lt_of_le_of_lt (succ_le_succ hle) hids
  have htrace := trace_invariant_of
    (P := fun i : TaskIngress J => i.Ok T ∧ Fixed i₀ i)
    (C := fun i op => i.Foreign op ∧ (i.perform T null op).2.nextId + 1 < 2 ^ 64)
    (perform T null) i₀ (fun i op hstep hok =>
      ⟨hok.1.perform hnull hstep.1 hstep.2, hok.2.trans (perform_fixed i op)⟩)
    ⟨hinit, .refl i₀⟩ hsteps
  intro e he now hinput
  obtain ⟨⟨hok, hfixed⟩, hentry⟩ := htrace e he
  have hnext := (hsteps e he).2
  rw [hinput] at hnext
  obtain ⟨hresult, hpolled⟩ := enqueueDueCron_spec hnull now.toNat_lt hok hnext
  rw [hfixed.registry, hfixed.timeout] at hpolled
  exact ⟨hresult, hpolled, hentry⟩

theorem calls_polled : ∀ call ∈ cronCalls (trace (perform T null) i₀ ops),
      call.Polled i₀.registry.cron i₀.requestTimeoutMs := by
  intro call hcall
  obtain ⟨e, he, hcall⟩ := mem_filterMap.mp hcall
  cases hinput : e.input with
  | cron now =>
    simp only [hinput, some.injEq] at hcall
    obtain ⟨-, hpolled, hentry⟩ := run_polls hnull hinit hforeign hids e he now hinput
    rw [← hcall, hentry, hinput]
    exact hpolled
  | _ => simp [hinput] at hcall

end Run

theorem new_ok (hbounded : ∀ r ∈ reg.cron, r.Bounded)
    (hnames : ∀ r ∈ reg.cron, 1 ≤ size r.name ∧ size r.name ≤ 128) {capacity : ℕ}
    {b₀ : TaskRpcBroker J} (hnew : TaskRpcBroker.new capacity = .ok b₀) {applicationId : String}
    {firstTaskId requestTimeoutMs : ℕ} {i₀ : TaskIngress J}
    (hingress : new b₀ reg applicationId firstTaskId requestTimeoutMs = .ok i₀) :
    i₀.Ok T ∧ i₀.registry = reg ∧ i₀.requestTimeoutMs = requestTimeoutMs ∧
      i₀.nextCronPosition = none := by
  simp only [new, bind_ok, reject_ok, pure_ok] at hingress
  obtain ⟨-, -, -, -, -, -, rfl⟩ := hingress
  refine ⟨⟨TaskRpcBroker.new_sound hnew, fun id _ _ => ?_, fun r hr => ?_⟩, rfl, rfl, rfl⟩
  · simp only [TaskRpcBroker.new, Scheduler.new, bind_ok, pure_ok] at hnew
    obtain ⟨-, ⟨-, -, rfl⟩, rfl⟩ := hnew
    rfl
  · have hname := hnames r hr
    refine ⟨hbounded r hr, fun hempty => ?_, hname.2⟩
    rw [hempty] at hname
    exact absurd hname.1 (by decide)

end TaskIngress

open TaskIngress

/-- Cron enqueues each pair of a minute and a registration at most once, whatever the clock
does. While the clock and the polls keep up it enqueues the matching pairs in order, from the
minute of the first poll on: all those before the cursor, and so all of them when the last poll
has not stopped for lack of capacity. -/
theorem cron_fires_once {definitions : List ModuleTaskDefinition} {reg : TaskRegistry}
    (hregistry : fromDefinitions definitions = .ok reg)
    (hnames : ∀ r ∈ reg.cron, 1 ≤ size r.name ∧ size r.name ≤ 128)
    (hnull : size (T.toVec null) ≤ maxTaskInputBytes) {capacity : ℕ} {b₀ : TaskRpcBroker J}
    (hnew : TaskRpcBroker.new capacity = .ok b₀) {applicationId : String}
    {firstTaskId requestTimeoutMs : ℕ} {i₀ : TaskIngress J}
    (hingress : TaskIngress.new b₀ reg applicationId firstTaskId requestTimeoutMs = .ok i₀)
    (ops : List (IngressOp J))
    (hforeign : ∀ e ∈ trace (perform T null) i₀ ops, e.before.Foreign e.input)
    (hids : (run (perform T null) i₀ ops).nextId + 1 < 2 ^ 64) :
    let calls := cronCalls (trace (perform T null) i₀ ops)
    let fired := calls.flatMap CronCall.fired
    fired.Pairwise CronPosition.Before ∧
    (∀ p ∈ fired, isDue reg.cron p.minute p.registration = true) ∧
    (∀ e ∈ trace (perform T null) i₀ ops, ∀ now : UInt64,
      e.input = .cron now → PollResult T null e.before now.toNat) ∧
    (∀ call ∈ calls, ∀ p, call.before = some p →
      isDue reg.cron p.minute p.registration = true → p.minute ≤ call.minute →
      call.nowMs < p.minute * minuteMs + dayMs → call.nowMs + requestTimeoutMs < 2 ^ 64 →
      0 < call.room → p ∈ call.fired) ∧
    (∀ first rest, calls = first :: rest → CronCall.OnTime requestTimeoutMs calls →
      ∃ last q, calls.getLast? = some last ∧ last.after = some q ∧
        fired ++ dueSpan reg.cron q (last.minute + 1) =
          scheduled reg.cron first.minute (last.minute + 1 - first.minute) ∧
        (¬ last.Stopped q →
          fired = scheduled reg.cron first.minute (last.minute + 1 - first.minute))) := by
  intro calls fired
  obtain ⟨hinit, rfl, rfl, hcursor⟩ := TaskIngress.new_ok
    (fromDefinitions_bounded hregistry) hnames hnew hingress
  have hpolled : ∀ call ∈ calls, call.Polled i₀.registry.cron i₀.requestTimeoutMs :=
    calls_polled hnull hinit hforeign hids
  obtain ⟨hlinked, hhead⟩ : CronCall.Linked calls ∧ ∀ call, calls.head? = some call →
      call.before = i₀.nextCronPosition := cronCalls_linked i₀ ops
  refine ⟨(CronCall.fired_sorted (fun call hcall => (hpolled call hcall).forward) hlinked).1,
    fun p hp => ?_, fun e he now hinput => ?_, ?_, ?_⟩
  · obtain ⟨call, hcall, hp⟩ := mem_flatMap.mp hp
    exact (hpolled call hcall).due hp
  · exact (run_polls hnull hinit hforeign hids e he now hinput).1
  · intro call hcall p hbefore hdue hminute hday hrange hroom
    exact (hpolled call hcall).pending hbefore hdue hminute hday hrange hroom
  intro first rest hcalls hontime
  have hnone : first.before = none := by
    rw [hhead first (by rw [hcalls, head?_cons]), hcursor]
  obtain ⟨last, q, hlast, hafter, hspan⟩ := CronCall.fired_scheduled (hcalls ▸ hpolled) hnone
    (hcalls ▸ hlinked) (hcalls ▸ hontime)
  rw [← hcalls] at hlast hspan
  refine ⟨last, q, hlast, hafter, hspan, fun hdone => ?_⟩
  have hnot : ¬ q.minute < last.minute + 1 := fun hlt =>
    hdone ⟨hafter, le_of_lt_succ hlt⟩
  rw [dueSpan, if_neg hnot, append_nil] at hspan
  exact hspan

/-! ## A task of every minute -/

def everyMinute : CronExpression :=
  ⟨"* * * * *", ⟨0, replicate 60 true, true⟩, ⟨0, replicate 24 true, true⟩,
    ⟨1, false :: replicate 31 true, true⟩, ⟨1, false :: replicate 12 true, true⟩,
    ⟨0, replicate 8 true, true⟩⟩

def tickIngress : TaskIngress Unit :=
  ⟨⟨⟨1, [], ∅, ∅, ∅⟩, ∅⟩, ⟨[⟨"tick", everyMinute⟩], ∅, ∅⟩, "app", 1, none, 5000⟩

theorem tick_registered : fromDefinitions [⟨"tick", .cron "* * * * *"⟩] =
    .ok tickIngress.registry := by
  rfl

/-- The second poll finds the queue full. A worker takes the task, and the third one goes on. -/
def tickOps : List (IngressOp Unit) :=
  [.cron 0, .cron 60000, .broker (.handle 60000 (.new (.claim 1 "w" 1000 1))), .cron 90000]

theorem tick_fires_once : (cronCalls (trace (perform unitTexts ()) tickIngress tickOps)).flatMap
      CronCall.fired = scheduled tickIngress.registry.cron 0 2 := by
  have hcalls : cronCalls (trace (perform unitTexts ()) tickIngress tickOps) =
      [⟨0, none, [⟨0, 0⟩], some ⟨1, 0⟩, 1⟩, ⟨60000, some ⟨1, 0⟩, [], some ⟨1, 0⟩, 0⟩,
        ⟨90000, some ⟨1, 0⟩, [⟨1, 0⟩], some ⟨2, 0⟩, 1⟩] := by
    decide +kernel
  have hontime : CronCall.OnTime 5000
      (cronCalls (trace (perform unitTexts ()) tickIngress tickOps)) := by
    rw [hcalls]
    refine ⟨by decide, by decide, .cons_cons ?_ (.cons_cons ?_ (.singleton _)), by decide⟩
    · rintro _ ⟨⟨⟩, hle⟩
      exact absurd hle (by decide)
    · rintro _ ⟨⟨⟩, -⟩
      decide
  have hforeign : ∀ e ∈ trace (perform unitTexts ()) tickIngress tickOps,
      e.before.Foreign e.input := by
    intro e he
    obtain ⟨_, _, hop, rfl⟩ := mem_trace _ _ he
    simp only [tickOps, mem_cons, not_mem_nil, or_false] at hop
    rcases hop with rfl | rfl | rfl | rfl <;> trivial
  obtain ⟨-, -, -, -, h⟩ := cron_fires_once tick_registered (by decide)
    (show size (unitTexts.toVec ()) ≤ maxTaskInputBytes by decide)
    (show TaskRpcBroker.new 1 = .ok tickIngress.broker from rfl)
    (show new _ _ "app" 1 5000 = .ok tickIngress from rfl) tickOps hforeign
    (by decide +kernel)
  obtain ⟨_, _, hlast, hafter, -, hfired⟩ := h _ _ hcalls hontime
  rw [hcalls] at hlast
  obtain rfl := some.inj hlast
  obtain rfl := some.inj hafter
  exact hfired fun hstopped => absurd hstopped.2 (by decide)

/-- A poll whose deadlines would overflow the clock enqueues nothing. -/
theorem overflowing_poll_not_fired :
    (tickIngress.enqueueDueCron unitTexts () (2 ^ 64 - 1)).1 = .error .clock ∧
    (tickIngress.enqueueDueCron unitTexts () (2 ^ 64 - 1)).2.1 = [] ∧
    scheduled tickIngress.registry.cron ((2 ^ 64 - 1) / minuteMs) 1 =
      [⟨(2 ^ 64 - 1) / minuteMs, 0⟩] := by
  decide +kernel

end Tysel.Tasks
