import Tysel.Algorithm.Tasks.Framing

/-! What arrives does not depend on how a reader cuts its stream into pieces. -/

namespace Tysel.Tasks

open Tysel.Bytes List Option Nat

variable {J : Type} {T : Texts J} {fromSlice : List UInt8 → Except String (Envelope J)}
  {env : Envelope J} {r r' : Reader}

theorem readFirst_eq (bs : List UInt8) (sched : List (Option ℕ)) : ∃ later,
    readFirst bs sched = bs.head?.map fun first => (first, ⟨bs.tail, later⟩) := by
  induction sched with
  | nil => cases bs <;> exact ⟨[], rfl⟩
  | cons step sched ih =>
    cases step with
    | none => exact ih
    | some => cases bs <;> exact ⟨sched, rfl⟩

theorem readExact_eq (asked : ℕ) (bs : List UInt8) (sched : List (Option ℕ)) :
    ∃ later, readExact asked bs sched = if bs.length < asked then .error endOfFile
      else .ok (bs.take asked, ⟨bs.drop asked, later⟩) := by
  induction sched generalizing asked bs with
  | nil =>
    refine ⟨[], ?_⟩
    rw [readExact, reject]
    split <;> rfl
  | cons step sched ih =>
    unfold readExact
    split
    next hzero => exact ⟨step :: sched, by rw [hzero]; rfl⟩
    next hasked =>
      cases step with
      | none => exact ih asked bs
      | some n =>
        dsimp only
        generalize hcount : min asked (min (n + 1) bs.length) = count
        obtain ⟨later, hrest⟩ := ih (asked - count) (bs.drop count)
        refine ⟨later, ?_⟩
        rw [hrest, length_drop]
        by_cases hpiece : count = 0
        · rw [reject_of _ hpiece, error_bind, if_pos (show bs.length < asked by omega)]
        rw [reject_of_not _ hpiece, ok_bind]
        by_cases hshort : bs.length < asked
        · rw [if_pos hshort, if_pos (by omega), error_bind]
        · rw [if_neg hshort, if_neg (by omega), ok_bind, ← take_add, drop_drop,
            Nat.add_sub_cancel' (by omega)]
          rfl

theorem readExact_append {asked : ℕ} {bs : List UInt8} (h : bs.length = asked)
    (tail : List UInt8) (sched : List (Option ℕ)) :
    ∃ later, readExact asked (bs ++ tail) sched = .ok (bs, ⟨tail, later⟩) := by
  obtain ⟨later, hread⟩ := readExact_eq asked (bs ++ tail) sched
  refine ⟨later, ?_⟩
  rw [hread, length_append, if_neg (by omega), take_left' h, drop_left' h]

theorem readExact_short {asked : ℕ} {bs : List UInt8} (h : bs.length < asked)
    (sched : List (Option ℕ)) : readExact asked bs sched = .error endOfFile := by
  obtain ⟨_, hread⟩ := readExact_eq asked bs sched
  rw [hread, if_pos h]

/-- A message that is valid, fits into a frame and parses as what was written. -/
structure Carried (T : Texts J) (fromSlice : List UInt8 → Except String (Envelope J))
    (env : Envelope J) : Prop where
  valid : env.validate T = .ok ()
  fits : (env.json T).utf8ByteSize ≤ maxTaskRpcFrame
  parsed : fromSlice (textBytes (env.json T)) = .ok env

def frame (T : Texts J) (env : Envelope J) : List UInt8 :=
  leBytes 4 (env.json T).utf8ByteSize ++ textBytes (env.json T)

theorem writeMessage_of (h : Carried T fromSlice env) : writeMessage T env = .ok (frame T env) := by
  rw [writeMessage, encodeMessage, h.valid, ok_bind, reject_of_not _ (not_lt.mpr h.fits), ok_bind]
  dsimp only [pure, Except.pure]
  rfl

theorem frameLength_of {n : ℕ} (h : n ≤ maxTaskRpcFrame) (rest : List UInt8)
    (sched : List (Option ℕ)) : ∃ later,
      frameLength ⟨leBytes 4 n ++ rest, sched⟩ = .ok (some (n, ⟨rest, later⟩)) := by
  obtain ⟨later, hfirst⟩ := readFirst_eq (leBytes 4 n ++ rest) sched
  obtain ⟨later', hheader⟩ := readExact_append (leBytes_length 3 (n / 256)) rest later
  have hvalue : ofLeBytes (leBytes 4 n) = n :=
    ofLeBytes_leBytes (by unfold maxTaskRpcFrame at h; omega)
  refine ⟨later', ?_⟩
  rw [leBytes] at hfirst hvalue ⊢
  simp only [cons_append, head?_cons, tail_cons, map_some] at hfirst
  simp only [frameLength, cons_append, hfirst, hheader, ok_bind, hvalue,
    reject_of_not _ (not_lt.mpr h)]
  rfl

theorem readMessageOpt_frame (h : Carried T fromSlice env) (tail : List UInt8)
    (sched : List (Option ℕ)) : ∃ later, readMessageOpt T fromSlice ⟨frame T env ++ tail, sched⟩ =
        .ok (some (env, ⟨tail, later⟩)) := by
  have hlength := textBytes_length (env.json T)
  obtain ⟨later, hframe⟩ := frameLength_of h.fits (textBytes (env.json T) ++ tail) sched
  obtain ⟨later', hpayload⟩ := readExact_append hlength tail later
  have hfits : ¬ maxTaskRpcFrame < (textBytes (env.json T)).length := hlength ▸ not_lt.mpr h.fits
  refine ⟨later', ?_⟩
  rw [readMessageOpt, frame, append_assoc, hframe]
  simp only [ok_bind, hpayload, decodeMessage, reject_of_not _ hfits, h.parsed, Except.mapError,
    h.valid]
  rfl

/-- A stream that ends inside a frame. -/
theorem readMessageOpt_cut (h : Carried T fromSlice env) {cut : List UInt8}
    (hcut : cut <+: frame T env) (hnil : cut ≠ []) (hne : cut ≠ frame T env)
    (sched : List (Option ℕ)) :
    readMessageOpt T fromSlice ⟨cut, sched⟩ = .error endOfFile := by
  rcases lt_or_ge cut.length 4 with hshort | hlong
  · obtain ⟨first, rest, rfl⟩ := exists_cons_of_ne_nil hnil
    obtain ⟨later, hfirst⟩ := readFirst_eq (first :: rest) sched
    have hrest : rest.length < 3 := lt_of_succ_lt_succ hshort
    simp only [readMessageOpt, frameLength, hfirst, head?_cons, map_some,
      tail_cons, readExact_short hrest, error_bind]
  have hheader := (leBytes_length 4 (env.json T).utf8ByteSize).trans_le hlong
  obtain ⟨part, rfl⟩ := prefix_of_prefix_length_le (prefix_append ..) hcut hheader
  have hpart := (prefix_append_right_inj _).mp hcut
  have hless : part.length < (env.json T).utf8ByteSize := by
    refine lt_of_le_of_ne hpart.length_le fun heq => hne ?_
    rw [hpart.eq_of_length heq, frame]
  obtain ⟨_, hframe⟩ := frameLength_of h.fits part sched
  rw [readMessageOpt, hframe]
  simp only [ok_bind, readExact_short hless, error_bind]

theorem readMessages_frames {envelopes : List (Envelope J)}
    (h : ∀ e ∈ envelopes, Carried T fromSlice e) (n : ℕ) (tail : List UInt8)
    (sched : List (Option ℕ)) : ∃ later, readMessages T fromSlice (envelopes.length + n)
          ⟨(envelopes.map (frame T)).flatten ++ tail, sched⟩ =
        envelopes.map (fun e => .ok (some e)) ++ readMessages T fromSlice n ⟨tail, later⟩ := by
  induction envelopes generalizing sched with
  | nil => exact ⟨sched, by rw [length_nil, zero_add]; rfl⟩
  | cons e es ih =>
    obtain ⟨hfirst, hrest⟩ := forall_mem_cons.mp h
    obtain ⟨later, hread⟩ := readMessageOpt_frame hfirst ((es.map (frame T)).flatten ++ tail) sched
    obtain ⟨later', hlater⟩ := ih hrest later
    refine ⟨later', ?_⟩
    rw [length_cons, add_right_comm, readMessages, map_cons, flatten_cons, append_assoc, hread]
    exact congrArg _ hlater

theorem readMessageOpt_valid (h : readMessageOpt T fromSlice r = .ok (some (env, r'))) :
    env.validate T = .ok () := by
  rw [readMessageOpt, bind_ok] at h
  obtain ⟨_ | ⟨_, _⟩, -, h⟩ := h
  · cases h
  · simp only [decodeMessage, bind_ok, pure_ok, some.injEq, Prod.mk.injEq] at h
    obtain ⟨-, -, _, ⟨-, -, _, -, ⟨⟩, hvalid, rfl⟩, rfl, -⟩ := h
    exact hvalid

theorem frameLength_le {length : ℕ} (h : frameLength r = .ok (some (length, r'))) :
    length ≤ maxTaskRpcFrame := by
  unfold frameLength at h
  split at h
  · cases h
  · simp only [bind_ok, reject_ok, pure_ok, some.injEq, Prod.mk.injEq] at h
    obtain ⟨_, -, _, hle, rfl, -⟩ := h
    exact not_lt.mp hle

/-- Messages arrive as they were written, however the stream is cut into pieces; a stream that
ends inside a frame is an error; no reader returns an invalid message or buffers more than a
frame. -/
theorem framing_lossless {envelopes : List (Envelope J)}
    (h : ∀ e ∈ envelopes, Carried T fromSlice e) :
    (∃ frames, envelopes.mapM (writeMessage T) = .ok frames ∧
      (∀ sched, readMessages T fromSlice (envelopes.length + 1) ⟨frames.flatten, sched⟩ =
        envelopes.map (fun e => .ok (some e)) ++ [.ok none]) ∧
      ∀ front frame back cut, frames = front ++ frame :: back → cut <+: frame → cut ≠ [] →
        cut ≠ frame → ∀ sched,
          readMessages T fromSlice (front.length + 1) ⟨front.flatten ++ cut, sched⟩ =
            (envelopes.take front.length).map (fun e => .ok (some e)) ++ [.error endOfFile]) ∧
    (∀ r e r', readMessageOpt T fromSlice r = .ok (some (e, r')) → e.validate T = .ok ()) ∧
    ∀ r length r', frameLength r = .ok (some (length, r')) → length ≤ 64 * 1024 := by
  refine ⟨⟨envelopes.map (frame T), ?_, fun sched => ?_, ?_⟩,
    fun _ _ _ => readMessageOpt_valid, fun _ _ _ => frameLength_le⟩
  · exact mapM_ok_iff.mpr (forall₂_map_right_iff.mpr
      (forall₂_same.mpr fun e he => writeMessage_of (h e he)))
  · obtain ⟨later, hread⟩ := readMessages_frames h 1 [] sched
    obtain ⟨_, hend⟩ := readFirst_eq [] later
    rw [append_nil] at hread
    rw [hread]
    simp only [readMessages, readMessageOpt, frameLength, hend]
    rfl
  · intro front next back cut hsplit hcut hnil hne sched
    obtain ⟨es, _, rfl, rfl, hrest⟩ := map_eq_append_iff.mp hsplit
    obtain ⟨e, _, rfl, rfl, -⟩ := map_eq_cons_iff.mp hrest
    have hes : ∀ e ∈ es, Carried T fromSlice e := fun e he => h e (mem_append_left _ he)
    have he := h e (mem_append_right _ (mem_cons_self ..))
    obtain ⟨_, hread⟩ := readMessages_frames hes 1 cut sched
    rw [length_map, hread, take_left, readMessages, readMessageOpt_cut he hcut hnil hne]

def nullTexts : Texts Unit := ⟨fun _ => "null", id⟩

def readyOrHello (bs : List UInt8) : Except String (Envelope Unit) :=
  .ok (.new (if bs.length < 50 then .ready else .hello "w"))

/-- Two messages arrive. Behind the first byte of the second one the stream is cut. -/
theorem ready_hello_lossless : ∃ frames,
    [Envelope.new .ready, .new (.hello "w")].mapM (writeMessage nullTexts) = .ok frames ∧
      ∀ sched, readMessages nullTexts readyOrHello 3 ⟨frames.flatten, sched⟩ =
          [.ok (some (.new .ready)), .ok (some (.new (.hello "w"))), .ok none] ∧
        readMessages nullTexts readyOrHello 2 ⟨(frames.take 1).flatten ++ [56], sched⟩ =
          [.ok (some (.new .ready)), .error endOfFile] := by
  have hboth : ∀ e ∈ [.new .ready, .new (.hello "w")], Carried nullTexts readyOrHello e := by
    simp only [mem_cons, not_mem_nil, or_false, forall_eq_or_imp, forall_eq]
    exact ⟨⟨rfl, by decide, rfl⟩, rfl, by decide, rfl⟩
  obtain ⟨⟨frames, hframes, hread, hcut⟩, -⟩ := framing_lossless hboth
  obtain rfl : [.new .ready, .new (.hello "w")].map (frame nullTexts) = frames :=
    Except.ok.inj hframes
  exact ⟨_, hframes, fun sched => ⟨hread sched,
    hcut [_] _ [] [56] rfl (by decide) (by simp) (by decide) sched⟩⟩

end Tysel.Tasks
