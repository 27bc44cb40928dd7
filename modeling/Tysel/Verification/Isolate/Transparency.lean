import Tysel.Algorithm.Isolate.Supervisor

/-! The worker's handler sees a request, and the client a response, as in the trusted pool when both
bodies are UTF-8 and both frames fit. A body that is not UTF-8 is always changed, and a body far
below the documented limit can need a frame that is too large. -/

namespace Tysel.Isolate

open Tysel.Text List AppIsolate HttpRequest HttpCall

variable {handler : Handler} {limit id rem : ℕ} {req : HttpRequest} {head : HttpHead}
  {body : Bytes}

theorem writeFrame_ok_iff {json : String} {u : Unit} :
    writeFrame json = .ok u ↔ size json ≤ maxFrame := by
  rw [writeFrame, reject_ok, not_lt]

/-- A worker with a millisecond or more to answer in lets its pool answer. -/
theorem serve_some (htime : 1000000 ≤ rem) (hlimit : 0 < limit) :
    serve limit (some handler) (req.call id rem) =
      answer id (handler (req.call id rem).request) := by
  have hpos : min ((req.call id rem).timeoutMs.getD limit) limit ≠ 0 := by
    simp only [call, Option.getD_some]
    omega
  change answer id (dispatchSyncUntil handler _ _) = _
  rw [dispatchSyncUntil, reject, if_neg hpos]
  rfl

/-- The supervisor succeeds if both frames fit and it accepts the reply. -/
theorem dispatchIsolated_ok_iff (hrequest : req.body.length ≤ maxIsolatedHttpBody)
    (htime : 1000000 ≤ rem) (hlimit : 0 < limit) :
    dispatchIsolated handler limit id rem req = .ok (head, body) ↔
      size (req.call id rem).json ≤ maxFrame ∧
        size (answer id (handler (req.call id rem).request)).json ≤ maxFrame ∧
        accept id (answer id (handler (req.call id rem).request)) = .ok (head, body) := by
  have hremaining : rem ≠ 0 := by omega
  simp only [dispatchIsolated, httpInner, writeLocked, bind_ok, mapError_ok, reject_ok,
    writeFrame_ok_iff, serve_some htime hlimit, not_lt, hrequest, hremaining]
  simp

/-- The supervisor returns the pool's answer exactly if its body is UTF-8. -/
theorem accept_answer_iff (hplain : head.websocket = false)
    (hresponse : body.length ≤ maxIsolatedHttpBody) :
    accept id (answer id (.ok (head, body))) = .ok (head, body) ↔ ValidUtf8 body := by
  rw [← utf8_fromUtf8Lossy_iff]
  have hhead : ⟨head.status, head.headers, false⟩ = head := by
    rw [← hplain]
  simp only [answer, accept, bind_ok, reject_ok, hplain, hhead]
  constructor
  · rintro ⟨-, -, -, -, -, -, hbody⟩
    simpa using hbody
  · intro hbody
    rw [hbody]
    simpa using hresponse

/-- A request and a response within the limit pass through the isolated profile unchanged exactly
if both bodies are UTF-8 and both frames fit. -/
theorem isolated_profile_transparent (hrequest : req.body.length ≤ maxIsolatedHttpBody)
    (htime : 1000000 ≤ rem) (hlimit : 0 < limit) (hanswer : handler req = .ok (head, body))
    (hplain : head.websocket = false) (hresponse : body.length ≤ maxIsolatedHttpBody) :
    (req.call id rem).request = req ∧ (isolated handler limit id rem).dispatchIncoming req =
        (trusted handler).dispatchIncoming req ↔
    (ValidUtf8 req.body ∧ ValidUtf8 body) ∧ size (req.call id rem).json ≤ maxFrame ∧
      size (answer id (handler req)).json ≤ maxFrame := by
  have hsame : (req.call id rem).request = req ↔ ValidUtf8 req.body := by
    rw [← utf8_fromUtf8Lossy_iff]
    refine ⟨fun h => congrArg HttpRequest.body h, fun h => ?_⟩
    rw [request, call, h]
  rw [hsame, and_assoc]
  refine and_congr_right fun htext => ?_
  change dispatchIsolated handler limit id rem req = handler req ↔ _
  rw [hanswer, dispatchIsolated_ok_iff hrequest htime hlimit, hsame.mpr htext, hanswer,
    accept_answer_iff hplain hresponse, ← and_assoc, and_comm]

def echo : Handler := fun req => .ok (⟨200, [], false⟩, req.body)

def post (body : Bytes) : HttpRequest := ⟨"POST", "/", [], body, 1⟩

theorem echo_text_transparent : ((post [0x68, 0x69]).call 1 1000000).request = post [0x68, 0x69] ∧
      (isolated echo 1 1 1000000).dispatchIncoming (post [0x68, 0x69]) =
        (trusted echo).dispatchIncoming (post [0x68, 0x69]) := by
  have htext : ValidUtf8 [0x68, 0x69] := ⟨['h', 'i'], by decide⟩
  have hread : fromUtf8Lossy [0x68, 0x69] = ['h', 'i'] := fromUtf8Lossy_utf8 ['h', 'i']
  refine (isolated_profile_transparent (by decide) le_rfl one_pos rfl rfl (by decide)).mpr
    ⟨⟨htext, htext⟩, ?_, ?_⟩
  · simp only [call, post, hread]
    decide
  · simp only [echo, answer, post, hread]
    decide

theorem jsonChars_control_size (n : ℕ) : size (jsonChars (replicate n '\x01')) = 6 * n := by
  induction n with
  | zero => rfl
  | succ n ih =>
    have hescape : size (jsonChar '\x01') = 6 := by decide
    rw [replicate_succ, jsonChars, size_append]
    omega

theorem body_size_lt (call : HttpCall) : size (jsonChars call.body) < size call.json := by
  have hbody : size (jsonChars call.body) < size (jsonString (String.ofList call.body)) := by
    have hquote : size "\"" = 1 := by decide
    rw [jsonString, String.toList_ofList, size_append, size_append]
    omega
  simp only [json, jsonObject_size, memberBytes]
  omega

theorem call_ff_body : ((post [0xff]).call 1 1000000).body = ['�'] := by
  have hbroken : decodeFirst [0xff] = none := by decide
  rw [call, post, fromUtf8Lossy, hbroken]
  rw [drop_nil, fromUtf8Lossy]

/-- A body of control characters, each one byte, of a third of the limit. -/
def controls : Bytes := List.replicate 10923 1

theorem controls_utf8 (n : ℕ) : utf8 (replicate n '\x01') = replicate n 1 := by
  induction n with
  | zero => rfl
  | succ n ih =>
    exact congrArg (1 :: ·) ih

theorem call_controls_json : maxFrame < size ((post controls).call 1 1000000).json := by
  have hbody : ((post controls).call 1 1000000).body = replicate 10923 '\x01' := by
    rw [call, post, controls, ← controls_utf8, fromUtf8Lossy_utf8]
  have hframe := body_size_lt ((post controls).call 1 1000000)
  rw [hbody, jsonChars_control_size] at hframe
  rw [maxFrame]
  omega

/-- A byte that is not UTF-8 reaches the handler and the client as U+FFFD, and a request with
10923 control characters does not reach the handler at all. -/
theorem echo_not_transparent : (((post [0xff]).call 1 1000000).request.body = [0xef, 0xbf, 0xbd] ∧
      (isolated echo 1 1 1000000).dispatchIncoming (post [0xff]) =
        .ok (⟨200, [], false⟩, [0xef, 0xbf, 0xbd]) ∧
      (trusted echo).dispatchIncoming (post [0xff]) = .ok (⟨200, [], false⟩, [0xff])) ∧
    (controls.length ≤ maxIsolatedHttpBody ∧
      (∃ error, (isolated echo 1 1 1000000).dispatchIncoming (post controls) = .error error) ∧
      (trusted echo).dispatchIncoming (post controls) = .ok (⟨200, [], false⟩, controls)) := by
  have hcontrols : controls.length ≤ maxIsolatedHttpBody := by
    rw [controls, length_replicate]
    decide
  have hreplaced : utf8 ['�'] = [0xef, 0xbf, 0xbd] := by decide
  have hread : fromUtf8Lossy [0xef, 0xbf, 0xbd] = ['�'] := by
    rw [← hreplaced, fromUtf8Lossy_utf8]
  have hbody : ((post [0xff]).call 1 1000000).request.body = [0xef, 0xbf, 0xbd] := by
    rw [request, call_ff_body, hreplaced]
  have hcall : (post [0xff]).call 1 1000000 = ⟨1, "POST", "/", [], ['�'], 1, some 1⟩ := by
    rw [← call_ff_body]
    rfl
  refine ⟨⟨hbody, ?_, rfl⟩, hcontrols, ?_, rfl⟩
  · refine (dispatchIsolated_ok_iff (by decide) le_rfl one_pos).mpr ⟨?_, ?_⟩
    · rw [hcall]
      decide
    · rw [echo, hbody, answer, hread]
      exact ⟨by decide, rfl⟩
  have hfails (head : HttpHead) (body : Bytes) :
      (isolated echo 1 1 1000000).dispatchIncoming (post controls) ≠ .ok (head, body) := fun hok =>
    absurd ((dispatchIsolated_ok_iff hcontrols le_rfl one_pos).mp hok).1
      (not_le.mpr call_controls_json)
  cases hdispatch : (isolated echo 1 1 1000000).dispatchIncoming (post controls) with
  | ok response => exact absurd hdispatch (hfails response.1 response.2)
  | error error => exact ⟨error, rfl⟩

end Tysel.Isolate
