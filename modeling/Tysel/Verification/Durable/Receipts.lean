import Tysel.Verification.Durable.Inbox

/-! The first accepted send with an idempotency key leaves a receipt. Until the task is pruned
the receipt answers every repetition with the same id and refuses every other use of the
key, so the inbox receives one row for the key. -/

namespace Tysel.Durable

open List Option Effect Db Call

variable {J : Type} {S : Crates J} {t : TaskId} {key : String} {db : Db}

theorem receipt?_apply {e : Effect} {op : Op J} (hfrom : e.From op)
    (hop : op.requestKey? ≠ some (t, key)) (hprune : e ≠ .prune t) :
    (e.apply db).receipt? t key = db.receipt? t key := by
  have hreceipts := apply_signalReceipts db e
  unfold receipt? receiptsOf
  cases e with
  | signal _ receipt =>
    rw [hreceipts]
    cases receipt with
    | none => simp
    | some r =>
      have hother : ¬ (r.taskId = t ∧ r.requestKey = key) := by
        rintro ⟨rfl, rfl⟩
        exact hop (hfrom.arguments r rfl)
      by_cases htask : r.taskId = t
      · have hkey : ¬ r.requestKey = key := fun hk => hother ⟨htask, hk⟩
        simp [filter_append, htask, hkey]
      · simp [filter_append, htask]
  | prune x =>
    have hne : t ≠ x := by
      rintro rfl
      exact hprune rfl
    rw [hreceipts, filter_filter_ne (fun _ => of_decide_eq_true) hne]
  | _ => rw [hreceipts]

variable {c : Call J}

theorem Committed.receipt?_eq {es : List Effect} (h : Committed S c es)
    (hop : c.input.requestKey? ≠ some (t, key)) (hkept : ¬ c.Prunes t) :
    c.after.receipt? t key = c.before.receipt? t key := by
  refine Guarded.Chain.invariant (P := fun s => s.receipt? t key = c.before.receipt? t key)
    (fun e => e.From c.input ∧ e ≠ .prune t) ?_ h.chain ?_ rfl
  · rintro _ _ ⟨hfrom, hprune⟩ hs -
    exact (receipt?_apply hfrom hop hprune).trans hs
  · exact fun e he => ⟨h.origin e he, Committed.keeps_task c es h hkept e he⟩

def Call.enqueued (c : Call J) : List InboxRow :=
  c.after.signalInbox.filter fun row => row ∉ c.before.signalInbox

theorem Call.enqueued_of_unchanged (h : c.after = c.before) : c.enqueued = [] := by
  simp [enqueued, h]

/-- The argument checks that a send makes before it looks at the receipts. -/
structure SendArgs (S : Crates J) (name : String) (payload : J) (time : ℕ) : Prop where
  name : validateSignalName name = .ok ()
  bytes : (S.toStr payload).utf8ByteSize ≤ maxEventPayloadBytes
  time : time < 2 ^ 63

/-- A call that was refused and changed nothing. -/
structure Call.Refused (c : Call J) : Prop where
  error : ∃ e, c.output = .error e
  unchanged : c.after = c.before

/-- The three ways a send with a key can end. -/
inductive KeyedSend (S : Crates J) (t : TaskId) (key name : String) (payload : J) (time : ℕ)
    (c : Call J) : Prop
  | refused (h : c.Refused)
  | repeated (r : ReceiptRow) (hkey : validateKey key = .ok ())
      (hr : c.before.receipt? t key = some r) (hname : r.signalName = name)
      (hpay : r.payload = S.sha256 (S.toStr payload)) (hout : c.output = .ok (.signalId r.signalId))
      (hafter : c.after = c.before)
  | accepted (id : ℕ) (hkey : validateKey key = .ok ())
      (hnone : c.before.receipt? t key = none) (hout : c.output = .ok (.signalId id))
      (hreceipt : c.after.receipt? t key = some ⟨t, key, name, S.sha256 (S.toStr payload), id⟩)
      (henqueued : c.enqueued = [⟨id, t, name, S.toStr payload, time⟩])

variable {name : String}

theorem keyedSend_call (S : Crates J) (t : TaskId) (key : String) (hinbox : db.InboxOk)
    (name : String) (payload : J) (time : ℕ) : KeyedSend S t key name payload time
      (entry (call S) db (.sendSignal t name payload time (some key))) := by
  rcases call_cases S db (.sendSignal t name payload time (some key)) with
    ⟨e, -, hcall⟩ | ⟨_, db', hok, hcall⟩
  · exact .refused ⟨⟨e, by simp [entry, hcall]⟩, by simp [entry, hcall]⟩
  obtain ⟨id, h, rfl⟩ := replying_ok.mp hok
  have hkey := h
  simp only [sendSignalInner, bind_ok, checkPrior, checkReceipt] at hkey
  obtain ⟨-, -, -, -, -, -, -, ⟨u, hkey, -⟩, -⟩ := hkey
  have hentry : entry (call S) db (.sendSignal t name payload time (some key)) =
      ⟨db, .sendSignal t name payload time (some key), .ok (.signalId id), db'⟩ := by
    simp [entry, hcall]
  rw [hentry]
  rcases sendSignalInner_commits h with ⟨k, r, hk, hr, hname, hpay, hid, hdb⟩ | ⟨hun, hen, hdb⟩
  · obtain rfl := some.inj hk
    exact .repeated r hkey hr hname hpay (by rw [hid]) hdb
  have hnone := hun key rfl
  refine .accepted id hkey hnone rfl ?_ ?_
  · have hreceipts : db'.signalReceipts = db.signalReceipts ++
        [⟨t, key, name, S.sha256 (S.toStr payload), id⟩] := by
      rw [hdb, apply_signalReceipts]
      rfl
    simp only [receipt?, receiptsOf] at hnone ⊢
    rw [hreceipts, filter_append, find?_append, hnone]
    simp
  · obtain rfl : id = db.inboxSequence + 1 := hen.2.1
    have hnew : ⟨db.inboxSequence + 1, t, name, S.toStr payload, time⟩ ∉
        db.signalInbox := fun hmem => absurd (hinbox.allocated _ hmem) (Nat.not_succ_le_self _)
    simp only [enqueued, hdb]
    rw [apply_signalInbox]
    simp [filter_append, hnew]

def Call.Acknowledges (S : Crates J) (t : TaskId) (key name text : String) (id : ℕ)
    (c : Call J) : Prop :=
  ∃ payload time, c.input = .sendSignal t name payload time (some key) ∧
    S.toStr payload = text ∧ c.output = .ok (.signalId id)

def enqueuedFor (t : TaskId) (key : String) (cs : List (Call J)) : List InboxRow :=
  (cs.filter fun c => c.input.requestKey? = some (t, key)).flatMap Call.enqueued

/-- A later call with the same key and another request is refused. -/
def KeyConflict (S : Crates J) (t : TaskId) (key : String) (c c' : Call J) : Prop :=
  ∀ name text id, c.Acknowledges S t key name text id →
    ∀ name' payload' time', c'.input = .sendSignal t name' payload' time' (some key) →
      name' ≠ name ∨ S.sha256 (S.toStr payload') ≠ S.sha256 text →
      c'.Refused ∧ (SendArgs S name' payload' time' → c'.output = .error .admissionConflict)

/-- What a run from `db₀` has done with a key: the receipt on file answers every
acknowledged send, and the inbox has received the row of the receipt and no other. -/
structure KeyUse (S : Crates J) (t : TaskId) (key : String) (db₀ : Db) (cs : List (Call J))
    (db : Db) : Prop where
  acknowledged : ∀ c ∈ cs, ∀ name text id, c.Acknowledges S t key name text id →
    validateKey key = .ok () ∧ ∃ r, db.receipt? t key = some r ∧ r.signalName = name ∧
      r.payload = S.sha256 text ∧ r.signalId = id
  unused : db.receipt? t key = none → enqueuedFor t key cs = []
  enqueued : db₀.receipt? t key = none → ∀ r, db.receipt? t key = some r →
    ∃ c ∈ cs, ∃ text time, c.Acknowledges S t key r.signalName text r.signalId ∧
      enqueuedFor t key cs = [⟨r.signalId, t, r.signalName, text, time⟩]
  conflicts : cs.Pairwise (KeyConflict S t key)

theorem enqueuedFor_append (cs : List (Call J)) (c : Call J) :
    enqueuedFor t key (cs ++ [c]) = enqueuedFor t key cs ++
      if c.input.requestKey? = some (t, key) then c.enqueued else [] := by
  unfold enqueuedFor
  by_cases h : c.input.requestKey? = some (t, key) <;> simp [h]

variable {db₀ : Db} {cs : List (Call J)}

theorem requestKey?_eq_some {op : Op J} (h : op.requestKey? = some (t, key)) :
    ∃ name payload time, op = .sendSignal t name payload time (some key) := by
  cases op with
  | sendSignal _ name payload time k =>
    cases k with
    | none => simp [Op.requestKey?] at h
    | some =>
      obtain ⟨rfl, rfl⟩ := h
      exact ⟨name, payload, time, rfl⟩
  | _ => simp [Op.requestKey?] at h

theorem Call.Acknowledges.requestKey {text : String} {id : ℕ}
    (h : c.Acknowledges S t key name text id) : c.input.requestKey? = some (t, key) := by
  obtain ⟨_, _, hinput, -⟩ := h
  rw [hinput]
  rfl

section

variable (h : KeyUse S t key db₀ cs db)

include h

theorem KeyUse.silent (hreceipt : c.after.receipt? t key = db.receipt? t key)
    (hack : ∀ name text id, ¬ c.Acknowledges S t key name text id)
    (henq : c.input.requestKey? = some (t, key) → c.enqueued = [])
    (hconf : ∀ c' ∈ cs, KeyConflict S t key c' c) :
    KeyUse S t key db₀ (cs ++ [c]) c.after where
  acknowledged c' hc' name text id hc := by
    rcases mem_append.mp hc' with hmem | hmem
    · rw [hreceipt]
      exact h.acknowledged c' hmem name text id hc
    · rw [mem_singleton.mp hmem] at hc
      exact absurd hc (hack name text id)
  unused hnone := by
    rw [enqueuedFor_append, h.unused (hreceipt ▸ hnone)]
    split
    · exact henq ‹_›
    · rfl
  enqueued hstart r hr := by
    obtain ⟨c', hc', text, time, hack', hrows⟩ := h.enqueued hstart r (hreceipt ▸ hr)
    refine ⟨c', mem_append_left _ hc', text, time, hack', ?_⟩
    rw [enqueuedFor_append, hrows]
    split
    · rw [henq ‹_›, append_nil]
    · rw [append_nil]
  conflicts := pairwise_append.mpr
    ⟨h.conflicts, pairwise_singleton _ _, fun c' hc' d hd => by
      rw [mem_singleton.mp hd]
      exact hconf c' hc'⟩

theorem KeyUse.conflict (hinbox : db.InboxOk) (op : Op J) :
    ∀ c ∈ cs, KeyConflict S t key c (entry (call S) db op) := by
  intro c hc name text id hack name' payload' time' hinput hother
  obtain ⟨hkey, r, hr, rfl, hpay, -⟩ := h.acknowledged c hc name text id hack
  obtain rfl : op = .sendSignal t name' payload' time' (some key) := hinput
  have hdiffers : r.signalName ≠ name' ∨ r.payload ≠ S.sha256 (S.toStr payload') := by
    rw [hpay]
    exact hother.imp Ne.symm Ne.symm
  constructor
  · cases keyedSend_call S t key hinbox name' payload' time' with
    | refused href => exact href
    | repeated r' _ hr' hname' hpay' =>
      obtain rfl : r = r' := mem_unique hr hr'
      exact absurd hpay' (hdiffers.resolve_left (not_not.mpr hname'))
    | accepted _ _ hnone =>
      exact absurd (hr.symm.trans hnone) (by simp)
  intro hargs
  have hperform : perform S db (.sendSignal t name' payload' time' (some key)) =
      .error .admissionConflict := by
    refine replying_eq_error.mpr ?_
    simp only [sendSignalInner, hargs.name, ok_bind, checkPrior, checkReceipt, hkey, hr,
      reject_of_not _ (not_lt.mpr hargs.bytes), toSqlInteger_of_lt _ hargs.time,
      reject_of _ hdiffers, error_bind]
  simp [entry, call_of_error hperform]

theorem KeyUse.answered {payload : J} {time : ℕ} {r : ReceiptRow}
    (hinput : c.input = .sendSignal t name payload time (some key))
    (hkey : validateKey key = .ok ()) (hname : r.signalName = name)
    (hpay : r.payload = S.sha256 (S.toStr payload)) (hout : c.output = .ok (.signalId r.signalId))
    (hr : c.after.receipt? t key = some r)
    (hold : ∀ r', db.receipt? t key = some r' → r' = r ∧ c.enqueued = [])
    (hnew : db.receipt? t key = none →
      c.enqueued = [⟨r.signalId, t, r.signalName, S.toStr payload, time⟩])
    (hconf : ∀ c' ∈ cs, KeyConflict S t key c' c) :
    KeyUse S t key db₀ (cs ++ [c]) c.after where
  acknowledged c' hc' name' text id hack := by
    rcases mem_append.mp hc' with hmem | hmem
    · obtain ⟨-, r', hr', hname', hpay', hid'⟩ := h.acknowledged c' hmem name' text id hack
      obtain ⟨rfl, -⟩ := hold r' hr'
      exact ⟨hkey, r', hr, hname', hpay', hid'⟩
    rw [mem_singleton.mp hmem] at hack
    obtain ⟨_, _, hinput', rfl, hout'⟩ := hack
    simp only [hinput, Op.sendSignal.injEq, true_and] at hinput'
    obtain ⟨rfl, rfl, -⟩ := hinput'
    simp only [hout, Except.ok.injEq, Reply.signalId.injEq] at hout'
    exact ⟨hkey, r, hr, hname, hpay, hout'⟩
  unused hnone := by simp [hr] at hnone
  enqueued hstart r' hr' := by
    obtain rfl : r = r' := mem_unique hr hr'
    rw [enqueuedFor_append]
    cases hbefore : db.receipt? t key with
    | none =>
      refine ⟨c, mem_append_right _ (mem_singleton_self _), S.toStr payload, time,
        ⟨payload, time, by rw [hinput, hname], rfl, hout⟩, ?_⟩
      rw [h.unused hbefore, hnew hbefore, hinput]
      simp [Op.requestKey?]
    | some r' =>
      obtain ⟨rfl, henq⟩ := hold r' hbefore
      obtain ⟨c', hc', text, time', hack, hrows⟩ := h.enqueued hstart r' hbefore
      refine ⟨c', mem_append_left _ hc', text, time', hack, ?_⟩
      simp [hrows, henq]
  conflicts := pairwise_append.mpr
    ⟨h.conflicts, pairwise_singleton _ _, fun c' hc' d hd => by
      rw [mem_singleton.mp hd]
      exact hconf c' hc'⟩

theorem KeyUse.step (hopen : db.Opened) (hinbox : db.InboxOk)
    (op : Op J) (hkept : ¬ Call.Prunes (entry (call S) db op) t) :
    KeyUse S t key db₀ (cs ++ [entry (call S) db op]) (call S db op).2 := by
  by_cases hop : op.requestKey? = some (t, key)
  · obtain ⟨name, payload, time, rfl⟩ := requestKey?_eq_some hop
    cases keyedSend_call S t key hinbox name payload time with
    | refused href =>
      obtain ⟨_, he⟩ := href.error
      exact h.silent (congrArg (receipt? · t key) href.unchanged)
        (fun _ _ _ ⟨_, _, _, _, hout⟩ => by simp [he] at hout)
        (fun _ => enqueued_of_unchanged href.unchanged) (h.conflict hinbox _)
    | repeated _ hkey hr hname hpay hout hafter =>
      refine h.answered rfl hkey hname hpay hout ?_ ?_ ?_ (h.conflict hinbox _)
      · exact (congrArg (receipt? · t key) hafter).trans hr
      · intro r' hr'
        exact ⟨mem_unique hr' hr, enqueued_of_unchanged hafter⟩
      · intro hnone
        exact absurd (hr.symm.trans hnone) (by simp)
    | accepted _ hkey hnone hout hreceipt henq =>
      refine h.answered rfl hkey rfl rfl hout hreceipt ?_ (fun _ => henq) (h.conflict hinbox _)
      intro r' hr'
      exact absurd (hr'.symm.trans hnone) (by simp)
  · obtain ⟨_, hes⟩ := call_committed S hopen op
    exact h.silent (hes.receipt?_eq hop hkept) (fun _ _ _ hack => hop hack.requestKey)
      (fun hkey => absurd hkey hop) (h.conflict hinbox op)

end

theorem keyUse_after (hopen : db.Opened) (hinbox : db.InboxOk) (t : TaskId) (key : String)
    (ops : List (Op J)) (hkept : ∀ c ∈ calls S db ops, ¬ c.Prunes t) :
    KeyUse S t key db (calls S db ops) (after S db ops) := by
  have hinv := trace_invariant (call S) db
    (P := fun cs s => s.Opened ∧ s.InboxOk ∧
      ((∀ c : Call J, c ∈ cs → ¬ c.Prunes t) → KeyUse S t key db cs s))
    ⟨hopen, hinbox, fun _ => ⟨by simp, fun _ => rfl, ?_, .nil⟩⟩ ?_ ops
  · exact hinv.2.2 hkept
  · intro hnone r hr
    exact absurd (hr.symm.trans hnone) (by simp)
  · rintro _ _ op ⟨hs, hin, huse⟩
    obtain ⟨es, hes⟩ := call_committed S hs op
    refine ⟨hes.opened hs, hes.inboxOk hin, fun hall => ?_⟩
    exact (huse fun c hc => hall c (mem_append_left _ hc)).step hs hin op (hall _ (by simp))

def Op.Sends (payload : J) : Op J → Prop
  | .sendSignal _ _ p _ _ => p = payload
  | _ => False

/-- From any reachable store, while the task is not pruned and the digest separates the
payload texts that are sent: equal keyed sends that succeed return one id, the inbox
receives one row for a key that was not on file, and a later send with the key and another
name or payload is refused and changes nothing. The refusal is an admission conflict
unless the arguments themselves are rejected first. -/
theorem keyed_signal_once (S : Crates J) (before ops : List (Op J)) (t : TaskId) (key : String)
    (hkept : ∀ c ∈ calls S (after S fresh before) ops, ¬ c.Prunes t)
    (hsha : ∀ op ∈ ops, ∀ op' ∈ ops, ∀ p q, op.Sends p → op'.Sends q →
      S.sha256 (S.toStr p) = S.sha256 (S.toStr q) → S.toStr p = S.toStr q) :
    (∀ c ∈ calls S (after S fresh before) ops, ∀ c' ∈ calls S (after S fresh before) ops,
        ∀ name text id id', c.Acknowledges S t key name text id →
          c'.Acknowledges S t key name text id' → id = id') ∧
      ((after S fresh before).receipt? t key = none →
        ∀ c ∈ calls S (after S fresh before) ops, ∀ name text id,
          c.Acknowledges S t key name text id →
          ∃ time, enqueuedFor t key (calls S (after S fresh before) ops) =
            [⟨id, t, name, text, time⟩]) ∧
      ∀ c c', [c, c'].Sublist (calls S (after S fresh before) ops) →
        ∀ name text id, c.Acknowledges S t key name text id →
        ∀ name' payload' time', c'.input = .sendSignal t name' payload' time' (some key) →
          name' ≠ name ∨ S.toStr payload' ≠ text → c'.Refused ∧
            (SendArgs S name' payload' time' → c'.output = .error .admissionConflict) := by
  have huse := keyUse_after (after_opened S fresh_opened before)
    (inboxOk_after before) t key ops hkept
  -- the digest separates the texts of any two calls of the run
  have hsep : ∀ c ∈ calls S (after S fresh before) ops,
      ∀ c' ∈ calls S (after S fresh before) ops, ∀ p q, c.input.Sends p → c'.input.Sends q →
        S.sha256 (S.toStr p) = S.sha256 (S.toStr q) → S.toStr p = S.toStr q := by
    intro c hc c' hc' p q
    obtain ⟨_, op, hop, rfl⟩ := mem_trace _ _ hc
    obtain ⟨_, op', hop', rfl⟩ := mem_trace _ _ hc'
    exact hsha op hop op' hop' p q
  refine ⟨?_, ?_, ?_⟩
  · intro c hc c' hc' name text id id' hack hack'
    obtain ⟨-, _, hr, -, -, rfl⟩ := huse.acknowledged c hc name text id hack
    obtain ⟨-, r', hr', -, -, rfl⟩ := huse.acknowledged c' hc' name text id' hack'
    rw [mem_unique hr hr']
  · intro hstart c hc name text id hack
    obtain ⟨-, r, hr, rfl, hpay, rfl⟩ := huse.acknowledged c hc name text id hack
    obtain ⟨c', hc', text', time, hack', hrows⟩ := huse.enqueued hstart r hr
    obtain ⟨-, r', hr', -, hpay', -⟩ := huse.acknowledged c' hc' _ _ _ hack'
    obtain rfl : r = r' := mem_unique hr hr'
    obtain ⟨p, _, hinput, rfl, -⟩ := hack
    obtain ⟨q, _, hinput', rfl, -⟩ := hack'
    have htext := hsep c' hc' c hc q p (by rw [hinput']; rfl) (by rw [hinput]; rfl)
      (hpay'.symm.trans hpay)
    exact ⟨time, by rw [hrows, htext]⟩
  · intro c c' hsub name text id hack name' payload' time' hinput hother
    have hpair := huse.conflicts.sublist hsub
    refine rel_of_pairwise_cons hpair (mem_singleton_self c') name text id hack name'
      payload' time' hinput (hother.imp_right fun hne hsame => hne ?_)
    obtain ⟨p, _, hp, rfl, -⟩ := hack
    exact hsep c' (hsub.subset (by simp)) c (hsub.subset (by simp)) payload' p
      (by rw [hinput]; rfl) (by rw [hp]; rfl) hsame

/-- A keyed signal is sent, repeated, contradicted, consumed, and repeated after the task
has completed. -/
def repeatedRun : List (Op Bool) :=
  [.sendSignal 7 "go" true 5 (some "key"), .sendSignal 7 "go" true 6 (some "key"),
    .sendSignal 7 "go" false 6 (some "key"), .pollSignal none 7 0 "go" 7 none 7 7,
    .finishTask none 7 1 true 8 none ⟨8, 8, 8, 8⟩, .sendSignal 7 "go" true 9 (some "key")]

theorem keyed_signal_once_repeated :
    ((calls bools (after bools fresh [.putProgram 7 .module "42" 0])
        repeatedRun).map fun c => c.input.requestKey?.isSome && c.output.isOk) =
      [true, true, false, false, false, true] ∧ ∃ time, enqueuedFor 7 "key"
          (calls bools (after bools fresh [.putProgram 7 .module "42" 0])
            repeatedRun) = [⟨1, 7, "go", "true", time⟩] := by
  have hsha : ∀ p q, bools.sha256 (bools.toStr p) =
      bools.sha256 (bools.toStr q) → bools.toStr p = bools.toStr q := by decide
  have hrun := keyed_signal_once bools [.putProgram 7 .module "42" 0] repeatedRun 7 "key"
    (by decide) fun _ _ _ _ p q _ _ => hsha p q
  refine ⟨by decide, ?_⟩
  exact hrun.2.1 (by decide) _ (mem_cons_self ..) "go" "true" 1 ⟨true, 5, rfl, rfl, rfl⟩

/-- A reused key with an invalid signal name is refused by the argument check, not as an
admission conflict. -/
theorem reused_key_invalid_name : (calls bools fresh [.putProgram 7 .module "42" 0,
        .sendSignal 7 "go" true 5 (some "key"), .sendSignal 7 "" true 6 (some "key")]).map
      Entry.output = [.ok (.program none), .ok (.signalId 1), .error .invalidSignalName] :=
  rfl

end Tysel.Durable
