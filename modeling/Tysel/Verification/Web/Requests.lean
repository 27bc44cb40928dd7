import Tysel.Algorithm.Web.Requests

/-! # A streamed body is whole to its one reader -/

namespace Tysel.Web.RequestFamily

open List RequestFamily

variable {s : RequestFamily} {input : BodyInput} {inputs : List BodyInput} {i owner : ℕ}
  {body : List UInt8} {f : RequestBody → RequestBody}

/-- No other request of the family reads or cancels the stream. -/
def ReadBy (owner : ℕ) : BodyInput → Prop
  | .read i _ | .cancel i => i = owner
  | _ => True

/-- No request reads the stream once it is cancelled. -/
def Uncancelled (before after : BodyInput) : Prop :=
  ∀ i j fails, before = .cancel i → after ≠ .read j fails

/-- Only the owner, which may have still to be constructed, has used the stream. -/
def Unread (owner : ℕ) (s : RequestFamily) : Prop :=
  ∀ i b, s.bodies[i]? = some b → i ≠ owner → b.used = false

def own (s : RequestFamily) (owner : ℕ) : RequestBody := s.bodies[owner]?.getD {}

def Delivered (body : List UInt8) (inbound : List (List UInt8)) (b : RequestBody) : Prop :=
  match b.state with
  | .readable => b.collected ++ inbound.flatten = body
  | .closed => b.collected = body
  | .errored => True

theorem bodies_update (i j : ℕ) :
    (s.update i f).bodies[j]? = if i = j then s.bodies[j]?.map f else s.bodies[j]? := by
  rw [update, getElem?_modify]
  split <;> simp_all

theorem own_update (b : RequestBody) (hget : s.bodies[i]? = some b) :
    (s.update i f).own i = f b := by
  rw [own, bodies_update, if_pos rfl, hget]
  rfl

theorem Unread.update (h : Unread owner s) (hf : i = owner ∨ ∀ b, (f b).used = b.used) :
    Unread owner (s.update i f) := by
  intro j b hb hj
  rw [bodies_update] at hb
  split at hb
  case isTrue hij =>
    obtain ⟨b, hget, rfl⟩ := Option.map_eq_some_iff.mp hb
    rw [hf.resolve_left (hij ▸ hj)]
    exact h j b hget hj
  case isFalse => exact h j b hb hj

theorem Unread.step (h : Unread owner s) (hinput : ReadBy owner input) :
    Unread owner (s.step input).2 := by
  cases input with
  | construct i =>
    simp only [step]
    split
    · intro j b hb hj
      rw [getElem?_append] at hb
      split at hb
      · exact h j b hb hj
      · rw [mem_singleton.mp (mem_of_getElem? hb)]
    · exact h
  | consume i | getReader i | releaseLock i => exact h.update (.inr (by grind))
  | cancel i =>
    simp only [step]
    split
    · exact Unread.update (s := { s with inbound := _ }) h (.inl hinput)
    · exact h
  | read i fails =>
    simp only [step]
    repeat' split
    all_goals first | exact h | exact h.update (.inl hinput)

/-- An input that reads nothing leaves the owner's part as it is. -/
theorem own_step (hread : ∀ i fails, input ≠ .read i fails) (hcancel : ∀ i, input ≠ .cancel i) :
    ((s.step input).2.own owner).state = (s.own owner).state ∧
      ((s.step input).2.own owner).collected = (s.own owner).collected ∧
      (s.step input).2.inbound = s.inbound ∧ (s.step input).1 = none := by
  cases input with
  | construct i =>
    simp only [step]
    split
    · simp only [own, getElem?_append]
      split
      · simp
      case isFalse hlt =>
        rw [getElem?_eq_none (Nat.le_of_not_lt hlt)]
        cases owner - s.bodies.length <;> simp
    · exact ⟨rfl, rfl, rfl, rfl⟩
  | consume i | getReader i | releaseLock i =>
    simp only [step, own, bodies_update]
    refine ⟨?_, ?_, rfl, trivial⟩ <;> cases s.bodies[owner]? <;> grind
  | cancel i => exact absurd rfl (hcancel i)
  | read i fails => exact absurd rfl (hread i fails)

/-- A read takes the next chunk, and the end is reported when there is none. -/
theorem Delivered.read (h : Delivered body s.inbound (s.own owner)) (fails : Bool) :
    let next := s.step (.read owner fails)
    Delivered body next.2.inbound (next.2.own owner) ∧ ∀ bs, next.1 = some bs → bs = body := by
  cases hget : s.bodies[owner]? with
  | none => simpa [step, hget] using h
  | some b =>
    have hown : s.own owner = b := by rw [own, hget]; rfl
    by_cases hlocked : b.locked = false
    · simpa [step, hget, hlocked] using h
    · cases hstate : b.state with
      | errored => simpa [step, hget, hlocked, hstate] using h
      | closed =>
        have hwhole : b.collected = body := by simpa [hown, Delivered, hstate] using h
        simpa [step, hget, hlocked, hstate, hwhole] using h
      | readable =>
        have hpart : b.collected ++ s.inbound.flatten = body := by
          simpa [hown, Delivered, hstate] using h
        have hafter (f : RequestBody → RequestBody) : (s.update owner f).own owner = f b :=
          own_update b hget
        cases fails with
        | true =>
          simp only [step, hget, if_neg hlocked, hstate]
          refine ⟨?_, nofun⟩
          change Delivered body [] ((s.update owner _).own owner)
          rw [hafter]
          trivial
        | false =>
          cases hinbound : s.inbound with
          | nil =>
            have hwhole : b.collected = body := by simpa [hinbound] using hpart
            simp only [step, hget, if_neg hlocked, hstate, hinbound]
            refine ⟨?_, fun _ h => (Option.some.inj h).symm.trans hwhole⟩
            rw [hafter]
            exact hwhole
          | cons chunk rest =>
            simp only [step, hget, if_neg hlocked, hstate, hinbound]
            refine ⟨?_, nofun⟩
            change Delivered body rest ((s.update owner _).own owner)
            rw [hafter]
            simpa [Delivered, hstate, hinbound] using hpart

theorem step_output {bs : List UInt8} (h : (s.step input).1 = some bs) :
    ∃ i fails, input = .read i fails := by
  cases input with
  | read i fails => exact ⟨i, fails, rfl⟩
  | construct i | cancel i =>
    simp only [step] at h
    split at h <;> cases h
  | _ => cases h

theorem Delivered.outputs (h : Delivered body s.inbound (s.own owner))
    (hreads : ∀ input ∈ inputs, ReadBy owner input) (hcancels : inputs.Pairwise Uncancelled) :
    ∀ e ∈ trace step s inputs, ∀ bs, e.output = some bs → bs = body := by
  induction inputs generalizing s with
  | nil => simp
  | cons input inputs ih =>
    obtain ⟨hlater, hcancels⟩ := pairwise_cons.mp hcancels
    obtain ⟨hread, hreads⟩ := forall_mem_cons.mp hreads
    intro e he bs hbytes
    rcases mem_cons.mp he with rfl | he
    · obtain ⟨i, fails, rfl⟩ := step_output hbytes
      obtain rfl : i = owner := hread
      exact (h.read fails).2 bs hbytes
    by_cases hcancel : ∃ i, input = .cancel i
    · -- The rest of the run reads nothing.
      obtain ⟨i, rfl⟩ := hcancel
      obtain ⟨_, later, hmem, rfl⟩ := mem_trace step _ he
      obtain ⟨j, fails, rfl⟩ := step_output hbytes
      exact absurd rfl (hlater _ hmem i j fails rfl)
    · refine ih ?_ hreads hcancels e he bs hbytes
      by_cases hreading : ∃ i fails, input = .read i fails
      · obtain ⟨i, fails, rfl⟩ := hreading
        obtain rfl : i = owner := hread
        exact (h.read fails).1
      · have hown := @own_step s input owner (fun i fails heq => hreading ⟨i, fails, heq⟩)
          fun i heq => hcancel ⟨i, heq⟩
        rw [Delivered, hown.1, hown.2.1, hown.2.2.1]
        exact h

/-- Constructing a request does not mark its input as used. -/
theorem construct_unmarked (h : (s.step (.construct i)).2.bodies ≠ s.bodies) :
    ∃ b, (s.step (.construct i)).2.bodies[i]? = some b ∧ b.used = false := by
  simp only [step] at h ⊢
  split at h
  case isTrue hunused =>
    rw [if_pos hunused]
    cases hget : s.bodies[i]? with
    | none => simp [hget] at hunused
    | some b =>
      have hlt := (List.getElem?_eq_some_iff.mp hget).1
      exact ⟨b, (getElem?_append_left hlt).trans hget, by simp_all⟩
  case isFalse => exact absurd rfl h

/-- If one request reads the stream, and not after it is cancelled, what is reported as the whole
body is the whole, and no other request is used. No request that is constructed from another one
marks that as used. -/
theorem streamed_body_whole (owner : ℕ) (inbound : List (List UInt8)) {inputs : List BodyInput}
    (hreads : ∀ input ∈ inputs, ReadBy owner input) (hcancels : inputs.Pairwise Uncancelled) :
    ∀ e ∈ trace step ⟨[{}], inbound⟩ inputs, (∀ bs, e.output = some bs → bs = inbound.flatten) ∧
      (∀ i b, e.after.bodies[i]? = some b → b.used = true → i = owner) ∧
      ∀ i, e.input = .construct i → e.after.bodies ≠ e.before.bodies →
        ∃ b, e.after.bodies[i]? = some b ∧ b.used = false := by
  intro e he
  have hunread : Unread owner ⟨[{}], inbound⟩ := by
    intro i b hb _
    rw [mem_singleton.mp (mem_of_getElem? hb)]
  have hinput : ∀ e ∈ trace step ⟨[{}], inbound⟩ inputs, ReadBy owner e.input := by
    intro e he
    obtain ⟨_, input, hmem, rfl⟩ := mem_trace step _ he
    exact hreads input hmem
  obtain ⟨hbefore, heq⟩ := trace_invariant_of step _ (fun _ _ hinput h => h.step hinput) hunread
    hinput e he
  have hdelivered : Delivered inbound.flatten inbound (own ⟨[{}], inbound⟩ owner) := by
    cases owner <;> rfl
  refine ⟨hdelivered.outputs hreads hcancels e he, fun i b hb hused => ?_, ?_⟩
  · by_contra hne
    rw [heq] at hb
    simp [hbefore.step (hinput e he) i b hb hne] at hused
  · intro i hconstruct
    rw [heq, hconstruct]
    exact construct_unmarked

/-- A request that is read by itself returns its body, also when another was constructed. -/
theorem constructed_request_reads : ∃ e ∈ trace step ⟨[{}], [[1], [2]]⟩
    [.construct 0, .consume 1, .read 1 false, .read 1 false, .read 1 false, .cancel 1],
      e.output.isSome ∧ ∀ bs, e.output = some bs → bs = [1, 2] := by
  refine ⟨_, getElem_mem (n := 4) (by simp [trace]), rfl, ?_⟩
  exact (streamed_body_whole 1 [[1], [2]] (by simp [ReadBy]) (by simp [Uncancelled]) _
    (getElem_mem _)).1

/-- Constructing a request leaves its input unused; the second reader of their stream reports the
rest of the body as the whole. A reader that cancels the stream is told that it has ended. -/
theorem constructed_request_part :
    let s := run step ⟨[{}], [[1], [2]]⟩ [.construct 0]
    let t := run step s [.consume 0, .read 0 false, .consume 1, .read 1 false]
    let u := run step ⟨[{}], [[1], [2]]⟩ [.getReader 0, .read 0 false, .cancel 0]
    s.bodies = [{}, {}] ∧ (t.step (.read 1 false)).1 = some [2] ∧
      (u.step (.read 0 false)).1 = some [1] := by
  decide

end Tysel.Web.RequestFamily
