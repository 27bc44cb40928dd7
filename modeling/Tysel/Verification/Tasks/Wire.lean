import Tysel.Algorithm.Tasks.Broker
import Tysel.Verification.Durable.Checks

/-! A deliverable task has a valid lease. One lease always fits into a frame, and the preview of a
lease is at least as large as the lease itself. -/

namespace Tysel.Tasks

open List WireTaskId Envelope

open Tysel.Durable (TaskId checkedAdd)
open TaskDescriptor (fromTask ofTask)
open Tysel.Text

variable {J : Type} {T : Texts J}

section

variable (id : TaskId)

theorem displayTaskId_size : size (displayTaskId id) = 32 := by
  have hone : ∀ c ∈ hexChars 32 id.val, c.utf8Size = 1 := fun c hc =>
    hexChar_size (hexChars_isLowerHex 32 id.val c hc)
  rw [displayTaskId, size, String.utf8ByteSize_ofList, utf8Len_eq_length hone, hexChars_length]

theorem WireTaskId.new_text : (new id).text = displayTaskId id := rfl

theorem displayTaskId_hex : (displayTaskId id).toList.all isLowerHex = true := by
  rw [displayTaskId, String.toList_ofList, all_eq_true]
  exact hexChars_isLowerHex 32 id.val

theorem WireTaskId.new_valid : (new id).validate = .ok () := by
  have hsize : (displayTaskId id).utf8ByteSize = 32 := displayTaskId_size id
  simp only [validate, new_text, reject_ok, hsize, displayTaskId_hex]
  simp

theorem ofHexChars_displayTaskId : ofHexChars (displayTaskId id).toList = id.val := by
  have hlt : id.val < 16 ^ 32 := lt_of_lt_of_eq id.isLt (by norm_num)
  rw [displayTaskId, String.toList_ofList, ofHexChars_hexChars, Nat.mod_eq_of_lt hlt]

theorem WireTaskId.parse_new : (new id).parse = .ok id := by
  simp only [parse, new_valid, new_text, ofHexChars_displayTaskId, Fin.ofNat_val_eq_self, ok_bind]
  rfl

end

/-- The trigger and the input of the task fit into a descriptor. -/
structure Deliverable (T : Texts J) (t : Task J) : Prop where
  trigger : (WireTaskTrigger.fromTaskTrigger t.trigger).validate = .ok ()
  input : size (T.toVec t.input) ≤ maxTaskInputBytes

variable {t : Task J}

theorem Deliverable.of_eq {t' : Task J} (h : Deliverable T t)
    (htrigger : t'.trigger = t.trigger) (hinput : t'.input = t.input) :
    Deliverable T t' :=
  ⟨htrigger ▸ h.trigger, hinput ▸ h.input⟩

theorem fromTask_ok {descriptor : TaskDescriptor J} (h : fromTask T t = .ok descriptor) :
    Deliverable T t ∧ descriptor = .ofTask t := by
  simp only [fromTask, TaskDescriptor.validate, bind_ok, pure_ok, reject_ok] at h
  obtain ⟨-, ⟨⟨⟩, htrigger, -, hinput, -⟩, rfl⟩ := h
  exact ⟨⟨htrigger, not_lt.mp hinput⟩, rfl⟩

theorem fromTask_of (h : Deliverable T t) (hattempt : t.attempt ≠ 0) :
    fromTask T t = .ok (.ofTask t) := by
  simp only [fromTask, TaskDescriptor.validate, bind_ok, pure_ok, reject_ok, and_true]
  exact ⟨(), (), h.trigger, (), not_lt.mpr h.input, hattempt⟩

theorem nextAttempt_ne_zero (attempt : UInt32) : Task.nextAttempt attempt ≠ 0 := by
  intro hzero
  have hnat := congrArg UInt32.toNat hzero
  have hlt : min (attempt.toNat + 1) (2 ^ 32 - 1) < UInt32.size := by
    rw [UInt32.size]
    omega
  rw [Task.nextAttempt, UInt32.toNat_ofNat_of_lt' hlt, UInt32.toNat_zero] at hnat
  omega

def TaskClaim.lease (k : TaskClaim J) : TaskLease J :=
  ⟨⟨.new k.task.info.id, k.generation, k.leaseOwner⟩, .ofTask k.task, k.leaseUntilMs⟩

/-- What a claim carries for its lease to be valid. -/
structure TaskClaim.Wired (T : Texts J) (k : TaskClaim J) : Prop where
  task : Deliverable T k.task
  attempt : k.task.attempt ≠ 0
  generation : 0 < k.generation ∧ k.generation < 2 ^ 64
  leaseUntilMs : 0 < k.leaseUntilMs ∧ k.leaseUntilMs < 2 ^ 64
  leaseOwner : validateWorkerId k.leaseOwner = .ok ()

def previewClaim (t : Task J) (leaseOwner : String) : TaskClaim J :=
  ⟨t, 2 ^ 64 - 1, leaseOwner, 2 ^ 64 - 1⟩

variable {k : TaskClaim J}

theorem wireLease_of (h : k.Wired T) : wireLease T k = .ok k.lease := by
  simp only [wireLease, fromTask_of h.task h.attempt]
  rfl

theorem previewWireLease_of (h : Deliverable T t) (hattempt : t.attempt ≠ 0) (leaseOwner : String) :
    previewWireLease T t leaseOwner = .ok (previewClaim t leaseOwner).lease := by
  simp only [previewWireLease, fromTask_of h hattempt]
  rfl

theorem lease_valid (h : k.Wired T) : k.lease.validate T = .ok () := by
  simp only [TaskLease.validate, LeaseToken.validate, TaskDescriptor.validate, bind_ok, reject_ok]
  exact ⟨(), ⟨(), new_valid _, (), h.generation.1.ne', h.leaseOwner⟩,
    (), ⟨(), h.task.trigger, (), not_lt.mpr h.task.input, h.attempt⟩, h.leaseUntilMs.1.ne'⟩

theorem validateLeaseOwner_of {workerId : String} (h : validateWorkerId workerId = .ok ()) :
    validateLeaseOwner workerId = .ok () := by
  simp only [validateWorkerId, validateLeaseOwner, reject_ok] at h ⊢
  exact h

theorem token_size (lease : LeaseToken) :
    size lease.json = size (jsonString lease.taskId.text) + size (toString lease.generation) +
      size (jsonString lease.leaseOwner) + 41 := by
  have hid : size (jsonString "task_id") = 9 := by decide
  have hgeneration : size (jsonString "generation") = 12 := by decide
  have howner : size (jsonString "lease_owner") = 13 := by decide
  simp only [LeaseToken.json, jsonObject_size, memberBytes]
  omega

theorem lease_size (lease : TaskLease J) :
    size (lease.json T) = size lease.token.json + size (lease.task.json T) +
      size (toString lease.leaseUntilMs) + 36 := by
  have htoken : size (jsonString "token") = 7 := by decide
  have htask : size (jsonString "task") = 6 := by decide
  have huntil : size (jsonString "lease_until_ms") = 16 := by decide
  simp only [TaskLease.json, jsonObject_size, memberBytes]
  omega

theorem claimed_size (rid : UInt64) (leases : List (TaskLease J)) :
    size ((new (.claimed rid leases)).json T) =
      size (toString rid.toNat) + (leases.map fun lease => size (lease.json T)).sum +
        (leases.length - 1) + 68 := by
  have htype : size (jsonString "type") = 6 := by decide
  have hclaimed : size (jsonString "claimed") = 9 := by decide
  have hrequest : size (jsonString "request_id") = 12 := by decide
  have hleases : size (jsonString "leases") = 8 := by decide
  have hversion : size (jsonString "version") = 9 := by decide
  have hmessage : size (jsonString "message") = 9 := by decide
  have hone : size (toString taskRpcVersion.toNat) = 1 := by decide
  simp only [json, Envelope.new, Message.json, taggedJson, jsonObject_size, memberBytes,
    jsonArray_size, map_map, length_map, Function.comp_def]
  omega

theorem totalBytes_ok {fields : List String} {start total : ℕ}
    (h : WireTaskTrigger.totalBytes start fields = .ok total) :
    total = start + (fields.map size).sum := by
  induction fields generalizing start with
  | nil => exact (Except.ok.inj h).symm
  | cons _ _ ih =>
    rw [WireTaskTrigger.totalBytes] at h
    split at h
    · cases h
    split at h
    · rename_i hnext
      have hsum := ih h
      obtain ⟨-, rfl⟩ := Durable.checkedAdd_eq_some.mp hnext
      rw [map_cons, sum_cons, hsum, size]
      omega
    · cases h

/-- Escaping makes the trigger fields at most six times as large. -/
theorem trigger_size_le {trigger : WireTaskTrigger} (h : trigger.validate = .ok ()) :
    size trigger.json ≤ 1700 := by
  simp only [WireTaskTrigger.validate, bind_ok, reject_ok] at h
  obtain ⟨total, htotal, hle⟩ := h
  unfold maxTaskTriggerBytes at hle
  have htype : size (jsonString "type") = 6 := by decide
  have hname : size (jsonString "name") = 6 := by decide
  cases trigger with
  | http method path =>
    have hmethod := jsonString_size_le method
    have hpath := jsonString_size_le path
    have hkeys : size (jsonString "http") = 6 ∧ size (jsonString "method") = 8 ∧
        size (jsonString "path") = 6 := by decide
    have hsum : total = 0 + (size method + (size path + 0)) := totalBytes_ok htotal
    simp only [WireTaskTrigger.json, jsonObject_size, memberBytes]
    omega
  | cron name expression =>
    have hcron := jsonString_size_le name
    have hexpression := jsonString_size_le expression
    have hkeys : size (jsonString "cron") = 6 ∧ size (jsonString "expression") = 12 := by decide
    have hsum : total = 0 + (size name + (size expression + 0)) := totalBytes_ok htotal
    simp only [WireTaskTrigger.json, jsonObject_size, memberBytes]
    omega
  | queue name handler messageId =>
    have hqueue := jsonString_size_le name
    have hhandler := jsonString_size_le handler
    have hkeys : size (jsonString "queue") = 7 ∧ size (jsonString "handler") = 9 ∧
        size (jsonString "message_id") = 12 ∧ size "null" = 4 := by decide
    cases messageId with
    | none =>
      have hsum : total = 0 + (size name + (size handler + 0)) := totalBytes_ok htotal
      simp only [WireTaskTrigger.json, jsonObject_size, memberBytes, jsonOption]
      omega
    | some messageId =>
      have hmessage := jsonString_size_le messageId
      have hsum : total = 0 + (size name + (size handler + (size messageId + 0))) :=
        totalBytes_ok htotal
      simp only [WireTaskTrigger.json, jsonObject_size, memberBytes, jsonOption]
      omega
  | mcp tool =>
    have htool := jsonString_size_le tool
    have hkeys : size (jsonString "mcp") = 5 ∧ size (jsonString "tool") = 6 := by decide
    have hsum : total = 0 + (size tool + 0) := totalBytes_ok htotal
    simp only [WireTaskTrigger.json, jsonObject_size, memberBytes]
    omega
  | agent name =>
    have hagent := jsonString_size_le name
    have hkeys : size (jsonString "agent") = 7 := by decide
    have hsum : total = 0 + (size name + 0) := totalBytes_ok htotal
    simp only [WireTaskTrigger.json, jsonObject_size, memberBytes]
    omega

theorem decimal64_size_le {n : ℕ} (h : n < 2 ^ 64) : size (toString n) ≤ 20 :=
  decimal_size_le (by omega) (lt_trans h (by norm_num))

theorem descriptor_size_le (h : Deliverable T t) : size ((ofTask t).json T) ≤ 34560 := by
  have htrigger := trigger_size_le h.trigger
  have hinput := h.input
  have hattempt : size (toString t.attempt.toNat) ≤ 20 := by
    have := t.attempt.toNat_lt
    exact decimal64_size_le (by omega)
  have hdeadline : size (jsonOption (fun ms : UInt64 => toString ms.toNat) t.deadlineMs) ≤ 20 := by
    cases t.deadlineMs with
    | none => decide
    | some deadline => exact decimal64_size_le deadline.toNat_lt
  have hkeys : size (jsonString "trigger") = 9 ∧ size (jsonString "input") = 7 ∧
      size (jsonString "attempt") = 9 ∧ size (jsonString "deadline_ms") = 13 := by decide
  unfold maxTaskInputBytes at hinput
  simp only [ofTask, TaskDescriptor.json, jsonObject_size, memberBytes]
  omega

theorem token_size_le (h : k.Wired T) : size k.lease.token.json ≤ 1025 := by
  have hid := jsonString_size_le (displayTaskId k.task.info.id)
  have hthirtytwo := displayTaskId_size k.task.info.id
  have hgeneration := decimal64_size_le h.generation.2
  have howner := jsonString_size_le k.leaseOwner
  have hlength : size k.leaseOwner ≤ 128 := by
    have hvalid := h.leaseOwner
    simp only [validateWorkerId, reject_ok, not_or, not_lt] at hvalid
    exact hvalid.2.1
  rw [token_size]
  simp only [TaskClaim.lease, new_text]
  omega

theorem lease_size_le (h : k.Wired T) : size (k.lease.json T) ≤ 35660 := by
  have htoken := token_size_le h
  have htask : size (k.lease.task.json T) ≤ 34560 := descriptor_size_le h.task
  have huntil : size (toString k.lease.leaseUntilMs) ≤ 20 := decimal64_size_le h.leaseUntilMs.2
  rw [lease_size]
  omega

theorem lease_size_le_preview (h : k.Wired T) : size (k.lease.json T) ≤
      size ((previewClaim k.task k.leaseOwner).lease.json T) := by
  have hgeneration := decimal64_size_le h.generation.2
  have huntil := decimal64_size_le h.leaseUntilMs.2
  have hmax : size (toString (2 ^ 64 - 1)) = 20 := by decide
  rw [lease_size, lease_size, token_size, token_size]
  simp only [TaskClaim.lease, previewClaim, hmax]
  omega

/-- The envelope passes its checks and fits into a frame. -/
def Sendable (T : Texts J) (envelope : Envelope J) : Prop :=
  ∃ text, encodeMessage T envelope = .ok text

/-- The leases of a response that can be sent. -/
structure SendableLeases (T : Texts J) (rid : UInt64) (leases : List (TaskLease J)) :
    Prop where
  count : leases.length ≤ maxClaimBatch
  valid : ∀ lease ∈ leases, lease.validate T = .ok ()
  fits : size ((Envelope.new (.claimed rid leases)).json T) ≤ maxTaskRpcFrame

variable {leases : List (TaskLease J)}

theorem encode_claimed (rid : UInt64) (hcount : leases.length ≤ maxClaimBatch)
    (hvalid : ∀ lease ∈ leases, lease.validate T = .ok ()) : (SendableLeases T rid leases ∧
        ∃ text, encodeMessage T (.new (.claimed rid leases)) = .ok text) ∨
      (maxTaskRpcFrame < size ((new (.claimed rid leases)).json T) ∧
        ∃ length, encodeMessage T (.new (.claimed rid leases)) =
          .error (.frameTooLarge length)) := by
  have hcheck : (new (.claimed rid leases)).validate T = .ok () := by
    simp only [Envelope.validate, Envelope.new, Message.validate, bind_ok, reject_ok,
      forM_ok_iff, not_lt, ne_eq, not_not, exists_const, true_and]
    exact ⟨hcount, hvalid⟩
  by_cases hfits : maxTaskRpcFrame < size ((new (.claimed rid leases)).json T)
  · exact .inr ⟨hfits, _, by simp only [encodeMessage, hcheck, ok_bind, reject_of _ hfits]; rfl⟩
  · refine .inl ⟨⟨hcount, hvalid, not_lt.mp hfits⟩, (new (.claimed rid leases)).json T, ?_⟩
    simp only [encodeMessage, hcheck, ok_bind, reject_of_not _ hfits]
    rfl

theorem SendableLeases.sendable {rid : UInt64} (h : SendableLeases T rid leases) :
    Sendable T (.new (.claimed rid leases)) := by
  rcases encode_claimed rid h.count h.valid with ⟨-, hok⟩ | ⟨hlarge, -⟩
  · exact hok
  · exact absurd h.fits (not_le.mpr hlarge)

theorem SendableLeases.nil (T : Texts J) (rid : UInt64) : SendableLeases T rid [] := by
  refine ⟨Nat.zero_le _, by simp, ?_⟩
  have hid := decimal64_size_le rid.toNat_lt
  rw [claimed_size]
  simp only [map_nil, sum_nil, length_nil, maxTaskRpcFrame]
  omega

theorem single_lease_fits (h : k.Wired T) (rid : UInt64) :
    size ((new (.claimed rid [k.lease])).json T) ≤ maxTaskRpcFrame := by
  have hid := decimal64_size_le rid.toNat_lt
  have hlease := lease_size_le h
  rw [claimed_size]
  simp only [map_cons, map_nil, sum_cons, sum_nil, length_cons, length_nil, maxTaskRpcFrame]
  omega

theorem SendableLeases.push {rid : UInt64} (h : k.Wired T)
    (hpreview : SendableLeases T rid (leases ++ [(previewClaim k.task k.leaseOwner).lease])) :
    SendableLeases T rid (leases ++ [k.lease]) := by
  refine ⟨by simpa using hpreview.count, ?_, ?_⟩
  · intro lease hlease
    rcases mem_append.mp hlease with hlease | hlease
    · exact hpreview.valid lease (mem_append_left _ hlease)
    · obtain rfl := mem_singleton.mp hlease
      exact lease_valid h
  · have hfits := hpreview.fits
    have hle := lease_size_le_preview h
    rw [claimed_size] at hfits ⊢
    simp only [map_append, sum_append, map_cons, map_nil, sum_cons,
      sum_nil, length_append, length_cons, length_nil] at hfits ⊢
    omega

end Tysel.Tasks
