import Tysel.Algorithm.Isolate.Worker

/-! What holds of each slot during a request and its teardown. A slot that the teardown has cleared
is empty and no task can fill it again: a reader holds an older generation, a body that a late
fetch installs is removed by that fetch, and a socket attempt has an older generation or is
refused at its first poll. `cleared` says that the teardown has passed the slot. -/

namespace Tysel.Isolate

open Option Table Function Nat Finset Point

variable {number g number' : ℕ} {cleared cleared' : Prop} {pts : OpId → Option Point}
  {id : OpId}
  {next : Option Point} {rx : Channel} {point : Point}

theorem points_update {P : OpId → Point → Prop}
    (h : ∀ id' point, id' ≠ id → pts id' = some point → P id' point)
    (hnext : ∀ point, next = some point → P id point) :
    ∀ id' point, update pts id next id' = some point → P id' point := by
  intro id' point hpt
  by_cases hid : id' = id
  · subst hid
    rw [update_self] at hpt
    exact hnext point hpt
  · rw [update_of_ne hid] at hpt
    exact h id' point hid hpt

/-- A slot with a receiver that a task takes out while it reads. -/
structure SourceOk (slot : StreamSlot) (source : Source) (number : ℕ) (cleared : Prop)
    (pts : OpId → Option Point) : Prop where
  inner : ∀ rx, slot.inner = some rx → rx = number ∧ ¬cleared
  held : ∀ id point, pts id = some point → ∀ rx g, point = .holding source rx g →
      rx = number ∧ g ≤ slot.generation ∧ (cleared → g < slot.generation)

namespace SourceOk

variable {slot : StreamSlot} {source : Source}

section

variable (h : SourceOk slot source number cleared pts)

include h

theorem move (hnext : ∀ rx g, next ≠ some (.holding source rx g)) :
    SourceOk slot source number cleared (update pts id next) := by
  refine ⟨h.inner, points_update (fun id' point _ => h.held id' point) ?_⟩
  rintro - hpt rx g rfl
  exact absurd hpt (hnext rx g)

theorem take (hrx : slot.inner = some rx) : SourceOk slot.take source number cleared
      (update pts id (some (.holding source rx slot.generation))) := by
  refine ⟨by simp [StreamSlot.take], points_update (fun id' point _ => h.held id' point) ?_⟩
  rintro _ ⟨⟩ _ _ hpt
  obtain ⟨-, rfl, rfl⟩ := holding.inj hpt
  exact ⟨(h.inner rx hrx).1, le_refl _, fun hc => absurd hc (h.inner rx hrx).2⟩

theorem putBack (hpt : pts id = some (.holding source rx g)) :
    SourceOk (slot.putBack rx g) source number cleared
      (update pts id (some .finished)) := by
  have hmoved : SourceOk slot source number cleared
      (update pts id (some .finished)) := h.move (by simp)
  unfold StreamSlot.putBack
  split
  · rename_i hgen
    obtain ⟨hrx, -, hstale⟩ := h.held id _ hpt rx g rfl
    refine ⟨?_, hmoved.held⟩
    rintro _ ⟨⟩
    exact ⟨hrx, fun hc => Nat.ne_of_lt (hstale hc) hgen.symm⟩
  · exact hmoved

theorem clear : SourceOk slot.clear source number cleared' pts := by
  refine ⟨by simp [StreamSlot.clear], fun id point hpt rx g heq => ?_⟩
  obtain ⟨hrx, hle, -⟩ := h.held id point hpt rx g heq
  exact ⟨hrx, le_succ_of_le hle, fun _ => lt_succ_of_le hle⟩

end

theorem install (hno : ∀ id, pts id = none) :
    SourceOk (slot.install number') source number' False pts :=
  ⟨by simp [StreamSlot.install], fun id point hpt => by simp [hno] at hpt⟩

theorem restart (h : SourceOk slot source number True pts)
    (hno : ∀ id, pts id = none) : SourceOk slot source number' False pts :=
  ⟨fun rx hrx => absurd trivial (h.inner rx hrx).2, fun id point hpt => by simp [hno] at hpt⟩

end SourceOk

/-- The task is about to remove, or to look at its flag and remove, the body it installed. -/
def Removes (bid : ℕ) (point : Point) : Prop := point = .installed bid ∨ point = .clearing bid

def Removed (pts : OpId → Option Point) (bid : ℕ) : Prop :=
  ∃ id point, pts id = some point ∧ Removes bid point

/-- A body is in the registry or with the one task that reads it. After the registry was
cleared, it is there only as long as its fetch has still to remove it, and the reader gives it
up. -/
structure BodiesOk (reg : StreamRegistry) (number : ℕ) (cleared : Prop)
    (pts : OpId → Option Point) : Prop where
  streams : ∀ bid rx, reg.streams.get? bid = some rx →
    rx = number ∧ bid < reg.nextId ∧ (cleared → Removed pts bid)
  reading : ∀ id point, pts id = some point → ∀ bid rx g, point = .reading bid rx g →
      rx = number ∧ bid < reg.nextId ∧ g ≤ reg.generation ∧
      bid ∈ reg.inFlight ∧ reg.streams.get? bid = none ∧
      (cleared → g < reg.generation ∨ bid ∈ reg.cancelled ∨ Removed pts bid)
  unique : ∀ id id' bid rx rx' g g', pts id = some (.reading bid rx g) →
    pts id' = some (.reading bid rx' g') → id = id'

namespace BodiesOk

variable {reg : StreamRegistry}

variable {bid : ℕ}

theorem removed_update (hpt : pts id = some point)
    (hremoves : ∀ bid, Removes bid point → ∃ p, next = some p ∧ Removes bid p)
    (h : Removed pts bid) : Removed (update pts id next) bid := by
  obtain ⟨id', point', hpoint', hr⟩ := h
  by_cases hid : id' = id
  · subst hid
    obtain rfl := mem_unique hpt hpoint'
    obtain ⟨p, hp, hrp⟩ := hremoves bid hr
    exact ⟨id', p, (update_self ..).trans hp, hrp⟩
  · exact ⟨id', point', (update_of_ne hid ..).trans hpoint', hr⟩

theorem removed_of_update (hpt : pts id = none ∨ pts id = some point)
    (hpoint' : ∀ bid, ¬Removes bid point) (h : Removed pts bid) :
    Removed (update pts id next) bid := by
  obtain ⟨id', point', hid', hr⟩ := h
  have hne : id' ≠ id := by
    rintro rfl
    rcases hpt with hno | hsome
    · simp [hno] at hid'
    · obtain rfl := mem_unique hsome hid'
      exact hpoint' bid hr
  exact ⟨id', point', (update_of_ne hne ..).trans hid', hr⟩

section

variable (h : BodiesOk reg number cleared pts)

include h

theorem unique_update (hnext : ∀ bid rx g, next = some (.reading bid rx g) →
      ∀ id' rx' g', pts id' ≠ some (.reading bid rx' g')) :
    ∀ id₁ id₂ bid rx rx' g g', update pts id next id₁ = some (.reading bid rx g) →
      update pts id next id₂ = some (.reading bid rx' g') → id₁ = id₂ := by
  intro id₁ id₂ bid rx rx' g g' h₁ h₂
  by_cases hid₁ : id₁ = id <;> by_cases hid₂ : id₂ = id
  · rw [hid₁, hid₂]
  · subst hid₁
    rw [update_self] at h₁
    rw [update_of_ne hid₂] at h₂
    exact absurd h₂ (hnext bid rx g h₁ id₂ rx' g')
  · subst hid₂
    rw [update_self] at h₂
    rw [update_of_ne hid₁] at h₁
    exact absurd h₁ (hnext bid rx' g' h₂ id₁ rx g)
  · rw [update_of_ne hid₁] at h₁
    rw [update_of_ne hid₂] at h₂
    exact h.unique id₁ id₂ bid rx rx' g g' h₁ h₂

/-- A task that reads no body moves to a point where it reads none. -/
theorem move (hremoved : cleared → ∀ bid, Removed pts bid → Removed (update pts id next) bid)
    (hnext : ∀ bid rx g, next ≠ some (.reading bid rx g)) :
    BodiesOk reg number cleared (update pts id next) := by
  refine ⟨fun bid rx hbody => ?_, points_update (fun id' point _ hpt => ?_) ?_, ?_⟩
  · obtain ⟨hrx, hlt, hwitness⟩ := h.streams bid rx hbody
    exact ⟨hrx, hlt, fun hc => hremoved hc bid (hwitness hc)⟩
  · intro bid rx g heq
    obtain ⟨hrx, hlt, hle, hflight, hno, hgone⟩ := h.reading id' point hpt bid rx g heq
    refine ⟨hrx, hlt, hle, hflight, hno, fun hc => ?_⟩
    exact (hgone hc).imp_right (Or.imp_right (hremoved hc bid))
  · rintro - hpt bid rx g rfl
    exact absurd hpt (hnext bid rx g)
  · exact h.unique_update fun bid rx g hn => absurd hn (hnext bid rx g)

theorem beginRead (hpt : pts id = some .started) (hbody : reg.streams.get? bid = some rx) :
    BodiesOk (reg.beginRead bid) number cleared
      (update pts id (some (.reading bid rx reg.generation))) := by
  obtain ⟨hrx, hlt, hwitness⟩ := h.streams bid rx hbody
  have hremoved : ∀ {b}, Removed pts b → Removed (update pts id
      (some (.reading bid rx reg.generation))) b := fun hr =>
    removed_of_update (.inr hpt) (by simp [Removes]) hr
  -- nobody else reads a body that is in the registry
  have hfree : ∀ id' rx' g', pts id' ≠ some (.reading bid rx' g') := by
    intro id' rx' g' hid'
    have hno := (h.reading id' _ hid' bid rx' g' rfl).2.2.2.2.1
    exact some_ne_none _ (hbody.symm.trans hno)
  refine ⟨fun b rx' hb => ?_, points_update (fun id' point _ hid' => ?_) ?_, ?_⟩
  · obtain ⟨hrx', hlt', hwitness'⟩ := h.streams b rx' (get?_erase_eq_some.mp hb).2
    exact ⟨hrx', hlt', fun hc => hremoved (hwitness' hc)⟩
  · intro b rx' g heq
    obtain ⟨hrx', hlt', hle, hflight, hno, hgone⟩ := h.reading id' point hid' b rx' g heq
    have hne : b ≠ bid := by
      rintro rfl
      exact hfree id' rx' g (heq ▸ hid')
    exact ⟨hrx', hlt', hle, mem_insert_of_mem hflight, (get?_erase_ne hne).trans hno,
      fun hc => (hgone hc).imp_right (Or.imp_right hremoved)⟩
  · rintro _ ⟨⟩ _ _ _ heq
    obtain ⟨rfl, rfl, rfl⟩ := reading.inj heq
    exact ⟨hrx, hlt, le_refl _, mem_insert_self .., get?_erase_self ..,
      fun hc => .inr (.inr (hremoved (hwitness hc)))⟩
  · refine h.unique_update fun b rx' g hn => ?_
    obtain ⟨rfl, -, -⟩ := reading.inj (some.inj hn)
    exact hfree

theorem endRead (hpt : pts id = some (.reading bid rx g)) (chunk : Bool) :
    BodiesOk (reg.endRead bid rx g chunk) number cleared
      (update pts id (some .finished)) := by
  obtain ⟨hrx, hlt, -, -, -, hgone⟩ := h.reading id _ hpt bid rx g rfl
  have hremoved : ∀ {b}, Removed pts b → Removed (update pts id
      (some .finished)) b := fun hr =>
    removed_of_update (.inr hpt) (by simp [Removes]) hr
  have hkept : BodiesOk { reg with
      inFlight := reg.inFlight.erase bid
      cancelled := reg.cancelled.erase bid } number cleared
      (update pts id (some .finished)) := by
    refine ⟨fun b rx' hb => ?_, points_update (fun id' point hid hid' => ?_) (by simp), ?_⟩
    · obtain ⟨hrx', hlt', hwitness'⟩ := h.streams b rx' hb
      exact ⟨hrx', hlt', fun hc => hremoved (hwitness' hc)⟩
    · rintro b rx' g' rfl
      obtain ⟨hrx', hlt', hle', hflight', hnone', hgone'⟩ := h.reading id' _ hid' b rx' g' rfl
      have hne : b ≠ bid := by
        rintro rfl
        exact hid (h.unique id' id b rx' rx g' g hid' hpt)
      refine ⟨hrx', hlt', hle', mem_erase.mpr ⟨hne, hflight'⟩, hnone', fun hc => ?_⟩
      rcases hgone' hc with hold | hcancelled | hr
      · exact .inl hold
      · exact .inr (.inl (mem_erase.mpr ⟨hne, hcancelled⟩))
      · exact .inr (.inr (hremoved hr))
    · exact h.unique_update (by simp)
  unfold StreamRegistry.endRead
  by_cases hdrop : !chunk ∨ reg.generation ≠ g ∨ bid ∈ reg.cancelled
  · rw [if_pos hdrop]
    exact hkept
  rw [if_neg hdrop]
  push Not at hdrop
  obtain ⟨-, hgen, hcancelled⟩ := hdrop
  refine ⟨fun b rx' hb => ?_, fun id' point hid' b rx' g' heq => ?_, hkept.unique⟩
  · rcases get?_insert_eq_some.mp hb with ⟨rfl, rfl⟩ | ⟨-, hb⟩
    · refine ⟨hrx, hlt, fun hc => ?_⟩
      rcases hgone hc with hold | hin | hr
      · exact absurd hgen (ne_of_gt hold)
      · exact absurd hin hcancelled
      · exact hremoved hr
    · exact hkept.streams b rx' hb
  · obtain ⟨hrx', hlt', hle', hflight', hnone', hgone'⟩ :=
      hkept.reading id' point hid' b rx' g' heq
    have hne : b ≠ bid := by
      rintro rfl
      exact absurd rfl (mem_erase.mp hflight').1
    exact ⟨hrx', hlt', hle', hflight', (get?_insert_ne hne).trans hnone', hgone'⟩

theorem install (hpt : pts id = some .installing) : BodiesOk (reg.install number) number cleared
      (update pts id (some (.installed reg.nextId))) := by
  have hmoved : BodiesOk reg number cleared
      (update pts id (some (.installed reg.nextId))) :=
    h.move (fun _ b hr => removed_of_update (.inr hpt) (by simp [Removes]) hr) (by simp)
  refine ⟨fun b rx hb => ?_, fun id' point hid' b rx g heq => ?_, hmoved.unique⟩
  · rcases get?_insert_eq_some.mp hb with ⟨rfl, rfl⟩ | ⟨-, hb⟩
    · exact ⟨rfl, lt_succ_self _, fun _ => ⟨id, _, update_self .., .inl rfl⟩⟩
    · obtain ⟨hrx, hlt, hwitness⟩ := hmoved.streams b rx hb
      exact ⟨hrx, lt_succ_of_lt hlt, hwitness⟩
  · obtain ⟨hrx, hlt, hle, hflight, hno, hgone⟩ :=
      hmoved.reading id' point hid' b rx g heq
    exact ⟨hrx, lt_succ_of_lt hlt, hle, hflight,
      (get?_insert_ne (Nat.ne_of_lt hlt)).trans hno, hgone⟩

/-- A body that is removed leaves the registry, or its reader is told. -/
theorem clear (bid : ℕ) : BodiesOk (reg.clear bid) number cleared pts ∧
      (reg.clear bid).streams.get? bid = none ∧
      (bid ∈ reg.inFlight → reg.streams.get? bid = none → bid ∈ (reg.clear bid).cancelled) := by
  unfold StreamRegistry.clear
  cases hbody : reg.streams.get? bid with
  | some =>
    refine ⟨⟨fun b rx' hb => ?_, fun id' point hid' b rx' g heq => ?_, h.unique⟩, by simp, by simp⟩
    · exact h.streams b rx' (get?_erase_eq_some.mp hb).2
    obtain ⟨hrx, hlt, hle, hflight, hno, hgone⟩ := h.reading id' point hid' b rx' g heq
    have hne : b ≠ bid := by
      rintro rfl
      exact some_ne_none _ (hbody.symm.trans hno)
    exact ⟨hrx, hlt, hle, hflight, (get?_erase_ne hne).trans hno, hgone⟩
  | none =>
    by_cases hflight : bid ∈ reg.inFlight
    · simp only [hflight, if_true]
      refine ⟨⟨h.streams, fun id' point hid' b rx' g heq => ?_, h.unique⟩, hbody,
        fun _ _ => mem_insert_self ..⟩
      obtain ⟨hrx, hlt, hle, hflight', hno, hgone⟩ := h.reading id' point hid' b rx' g heq
      refine ⟨hrx, hlt, hle, hflight', hno, fun hc => ?_⟩
      exact (hgone hc).imp_right (Or.imp_left fun hin => mem_insert_of_mem hin)
    · simp only [hflight, if_false]
      exact ⟨h, hbody, False.elim⟩

theorem remove (hpt : pts id = some (.clearing bid)) : BodiesOk (reg.clear bid) number cleared
      (update pts id (some .finished)) := by
  obtain ⟨hclear, hgone, hcancelled⟩ := h.clear bid
  have hother : ∀ {b}, b ≠ bid → Removed pts b → Removed (update pts id (some .finished)) b := by
    rintro b hne ⟨id', point, hid', hr⟩
    have hid : id' ≠ id := by
      rintro rfl
      obtain rfl := mem_unique hpt hid'
      rcases hr with hr | hr
      · cases hr
      · exact hne (clearing.inj hr).symm
    exact ⟨id', point, (update_of_ne hid ..).trans hid', hr⟩
  refine ⟨fun b rx hb => ?_, points_update (fun id' point _ hid' => ?_) (by simp), ?_⟩
  · have hne : b ≠ bid := by
      rintro rfl
      exact some_ne_none _ (hb.symm.trans hgone)
    obtain ⟨hrx, hlt, hwitness⟩ := hclear.streams b rx hb
    exact ⟨hrx, hlt, fun hc => hother hne (hwitness hc)⟩
  · intro b rx g heq
    obtain ⟨hrx, hlt, hle, hflight, hno, hgone'⟩ := hclear.reading id' point hid' b rx g heq
    refine ⟨hrx, hlt, hle, hflight, hno, fun hc => ?_⟩
    by_cases hb : b = bid
    · subst hb
      obtain ⟨-, -, -, hflight, hno, -⟩ := h.reading id' point hid' b rx g heq
      exact .inr (.inl (hcancelled hflight hno))
    · exact (hgone' hc).imp_right (Or.imp_right (hother hb))
  · exact hclear.unique_update (by simp)

theorem clearAll : BodiesOk reg.clearAll number cleared' pts := by
  refine ⟨by simp [StreamRegistry.clearAll], fun id point hid bid rx g heq => ?_, h.unique⟩
  obtain ⟨hrx, hlt, hle, hflight, -, -⟩ := h.reading id point hid bid rx g heq
  exact ⟨hrx, hlt, le_succ_of_le hle, hflight, rfl, fun _ => .inl (lt_succ_of_le hle)⟩

end

theorem restart (h : BodiesOk reg number True pts)
    (hno : ∀ id, pts id = none) : BodiesOk reg number' False pts := by
  refine ⟨fun bid rx hbody => ?_, fun id point hid => by simp [hno] at hid,
    fun id id' bid rx rx' g g' hid => by simp [hno] at hid⟩
  obtain ⟨_, _, hid, -⟩ := (h.streams bid rx hbody).2.2 trivial
  simp [hno] at hid

end BodiesOk

/-- The generation a socket attempt started with, and whether it may still open a socket. -/
def Point.attempt : Point → Option (ℕ × Bool)
  | .opening g | .connecting g | .refused g => some (g, false)
  | .awaiting g | .connected g => some (g, true)
  | _ => none

/-- An attempt that may still open a socket is from before the new generation. -/
structure ClientOk (slot : ClientWebSocketSlot) (number : ℕ) (advanced cleared : Prop)
    (pts : OpId → Option Point) : Prop where
  commands : ∀ tx, slot.commands = some tx → tx = number ∧ ¬cleared
  attempt : ∀ id point, pts id = some point → ∀ g opens, point.attempt = some (g, opens) →
      g ≤ slot.generation ∧ (advanced → opens = true → g < slot.generation)

namespace ClientOk

variable {slot : ClientWebSocketSlot} {advanced : Prop}

section

variable (h : ClientOk slot number advanced cleared pts)

include h

theorem move (hnext : ∀ point g opens, next = some point → point.attempt = some (g, opens) →
        g ≤ slot.generation ∧ (advanced → opens = true → g < slot.generation)) :
    ClientOk slot number advanced cleared (update pts id next) :=
  ⟨h.commands, points_update (fun id' point _ => h.attempt id' point) fun point hpt
    g opens => hnext point g opens hpt⟩

/-- A step of an attempt that keeps its generation and can open a socket only if it could. -/
theorem proceed {point' : Point} {opens opens' : Bool} (hpt : pts id = some point)
    (hattempt : point.attempt = some (g, opens)) (hattempt' : point'.attempt = some (g, opens'))
    (hopens : advanced → opens' = true → opens = true) :
    ClientOk slot number advanced cleared (update pts id (some point')) := by
  refine h.move ?_
  rintro _ _ _ ⟨⟩ heq
  obtain ⟨rfl, rfl⟩ := Prod.mk.inj (mem_unique hattempt' heq)
  obtain ⟨hle, hlt⟩ := h.attempt id point hpt g opens hattempt
  exact ⟨hle, fun ha ho => hlt ha (hopens ha ho)⟩

theorem finish : ClientOk slot number advanced cleared (update pts id (some .finished)) :=
  h.move (by rintro _ g opens ⟨⟩ ⟨⟩)

theorem mark (connecting : Bool) :
    ClientOk { slot with connecting := connecting } number advanced cleared pts :=
  ⟨h.commands, h.attempt⟩

theorem refuse (g : ℕ) : ClientOk (slot.refuse g) number advanced cleared pts := by
  unfold ClientWebSocketSlot.refuse
  split
  · exact h.mark false
  · exact h

theorem connect (hadvanced : cleared → advanced) (hpt : pts id = some (.connected g)) :
    ClientOk (slot.connect number g) number advanced cleared pts := by
  unfold ClientWebSocketSlot.connect
  by_cases hgen : slot.generation = g
  · rw [if_neg (not_not_intro hgen)]
    refine ⟨?_, h.attempt⟩
    rintro _ ⟨⟩
    refine ⟨rfl, fun hc => ?_⟩
    have hstale := (h.attempt id _ hpt g true rfl).2 (hadvanced hc) rfl
    exact ne_of_gt hstale hgen
  · rw [if_pos hgen]
    exact h.mark false

theorem nextGeneration {advanced' : Prop} :
    ClientOk slot.nextGeneration number advanced' cleared pts := by
  refine ⟨h.commands, fun id point hid g opens hattempt => ?_⟩
  obtain ⟨hle, -⟩ := h.attempt id point hid g opens hattempt
  exact ⟨le_succ_of_le hle, fun _ _ => lt_succ_of_le hle⟩

theorem reset : ClientOk slot.reset number advanced cleared' pts :=
  ⟨by simp [ClientWebSocketSlot.reset], h.attempt⟩

end

theorem restart (h : ClientOk slot number True True pts)
    (hno : ∀ id, pts id = none) : ClientOk slot number' False False pts :=
  ⟨fun tx htx => absurd trivial (h.commands tx htx).2, fun id point hid => by simp [hno] at hid⟩

end ClientOk

end Tysel.Isolate
