import Mathlib.Data.Nat.Notation
import Tysel.Algorithm.Release.Activation

/-! A killed process leaves the root in the state of some point between two operations. The root is
valid there, unless the link has been switched to another version and the state has not, or the
active directory itself has been taken away. -/

namespace Tysel.Release

open FsOp List Function Root

variable {V R : Type} [DecidableEq V] {verify : V → R → Bool} {root : Root V R}

/-- The operations before which a kill leaves an invalid root: a write of the state behind a
switch of the link, the switch back when that write has failed, and the return of the active
directory. -/
def FsOp.Exposed (active target : V) (failure : Option Stage) : FsOp V R → Prop
  | .writeState _ => target ≠ active ∧ failure ≠ some .link ∧ failure ≠ some .state
  | .replaceLink version => target ≠ active ∧ version = active ∧ failure = some .state
  | .publish .. | .remove _ | .putBack _ => target = active
  | _ => False

def Root.after (root : Root V R) (ops : List (FsOp V R)) : Root V R := ops.foldl FsOp.apply root

def Guards (verify : V → R → Bool) (exposed : FsOp V R → Prop) : Root V R → List (FsOp V R) → Prop
  | root, [] => root.validateActiveInstall verify = true
  | root, op :: ops => (¬ exposed op → root.validateActiveInstall verify = true) ∧
      Guards verify exposed (op.apply root) ops

theorem Guards.point {exposed : FsOp V R → Prop} {done rest : List (FsOp V R)}
    (h : Guards verify exposed root (done ++ rest)) (hnext : ∀ op ∈ rest.head?, ¬ exposed op) :
    (root.after done).validateActiveInstall verify = true := by
  induction done generalizing root with
  | nil =>
    cases rest with
    | nil => exact h
    | cons op => exact h.1 (hnext op rfl)
  | cons _ _ ih => exact ih h.2

def Complete (verify : V → R → Bool) (versions : V → Option R) (version : V) : Prop :=
  (versions version).any (verify version) = true

theorem valid_iff : root.validateActiveInstall verify = true ↔
    root.link = root.state ∧ Complete verify root.versions root.state := by
  simp [validateActiveInstall, Complete]

section Directories

variable {active target : V} {versions : V → Option R} {replaced : Option R} {link state : V}

/-- A switch of the link or a write of the state leaves the directories as they are. -/
theorem valid_switched (hactive : Complete verify versions active)
    (htarget : Complete verify versions target) (hstate : state = active ∨ state = target) :
    validateActiveInstall verify ⟨versions, replaced, link, state⟩ = true ↔ link = state := by
  refine valid_iff.trans (and_iff_left ?_)
  rcases hstate with rfl | rfl
  · exact hactive
  · exact htarget

/-- The directory of another version may be changed in any way. -/
theorem Complete.update (h : Complete verify versions active) (hne : target ≠ active)
    (directory : Option R) : Complete verify (update versions target directory) active := by
  simpa [Complete, hne.symm] using h

theorem Complete.putBack (h : target ≠ active → Complete verify versions active)
    (hreplaced : target = active → replaced.any (verify active) = true) :
    Complete verify (Function.update versions target replaced) active := by
  by_cases hsame : target = active
  · simpa [Complete, hsame] using hreplaced hsame
  · exact (h hsame).update hsame _

/-- The return of a directory that was replaced passes only through unfinished directories. -/
theorem directory_guards (failure : Option Stage) (rest : R) (h : Complete verify versions active)
    {destination : Bool}
    (hreplaced : destination = true → target = active → replaced.any (verify active) = true) :
    Guards verify (Exposed active target failure) ⟨versions, replaced, active, active⟩
      (if destination then [.erode target rest, .remove target, .putBack target] else []) := by
  cases destination
  · exact valid_iff.mpr ⟨rfl, h⟩
  have hremove (hne : target ≠ active) := (h.update hne (some rest)).update hne none
  exact ⟨fun _ => valid_iff.mpr ⟨rfl, h⟩, fun hne => valid_iff.mpr ⟨rfl, h.update hne _⟩,
    fun hne => valid_iff.mpr ⟨rfl, hremove hne⟩,
    valid_iff.mpr ⟨rfl, .putBack hremove (hreplaced rfl)⟩⟩

end Directories

/-- While the activation of another version goes on, the directories of both are complete. -/
theorem Upgrade.activate_guards (u : Upgrade V R) (hrestores : ∀ op, u.restores op = true)
    {destination : Bool} {active : V} {versions : V → Option R} {replaced : Option R}
    {before : Root V R} (hlink : before.link = active) (hstate : before.state = active)
    (hactive : Complete verify versions active) (hnext : Complete verify versions u.next)
    (hreplaced : destination = true → u.next = active → replaced.any (verify active) = true) :
    Guards verify (Exposed active u.next u.failure) ⟨versions, replaced, active, active⟩
      (u.activate before destination) := by
  have hdirectory := directory_guards u.failure u.rest hactive hreplaced
  simp only [Upgrade.activate, filter_eq_self.mpr fun op _ => hrestores op, hlink, hstate]
  generalize ite (destination = true) _ _ = directory at hdirectory ⊢
  cases hfailure : u.failure with
  | none => simp [Guards, apply, Exposed, valid_switched hactive hnext]
  | some stage =>
    rw [hfailure] at hdirectory
    cases stage <;> simp [Guards, apply, Exposed, valid_switched hactive hnext, hdirectory,
      @eq_comm _ active]

theorem Upgrade.guards (u : Upgrade V R) (hrestores : ∀ op, u.restores op = true)
    (hvalid : root.validateActiveInstall verify = true) :
    Guards verify (Exposed root.state u.next u.failure) root (u.ops verify root) := by
  obtain ⟨hlink, hactive⟩ := valid_iff.mp hvalid
  obtain ⟨versions, replaced, active, _⟩ := root
  obtain rfl : active = _ := hlink
  simp only [Upgrade.ops]
  split
  next hextracted =>
    have hnext versions : Complete verify (update versions u.next (some u.extracted)) u.next := by
      simpa [Complete] using hextracted
    split
    next hnone =>
      have hne : u.next ≠ active := by
        rintro rfl
        simp [Complete, hnone] at hactive
      split
      · exact hvalid
      · exact ⟨fun _ => hvalid,
          u.activate_guards hrestores rfl rfl (hactive.update hne _) (hnext _) (by simp)⟩
    next existing hexisting =>
      split
      next hreusable =>
        refine u.activate_guards hrestores rfl rfl hactive ?_ (by simp)
        simpa [Complete, hexisting] using (Bool.and_eq_true_iff.mp hreusable).1
      have hbackup (heq : u.next = active) : (versions u.next).any (verify active) = true := by
        rwa [heq]
      have hquarantine (hne : u.next ≠ active) := hactive.update hne none
      split
      · rw [filter_eq_self.mpr fun op _ => hrestores op]
        exact ⟨fun _ => hvalid, fun hne => valid_iff.mpr ⟨rfl, hquarantine hne⟩,
          valid_iff.mpr ⟨rfl, .putBack hquarantine hbackup⟩⟩
      · exact ⟨fun _ => hvalid, fun hne => valid_iff.mpr ⟨rfl, hquarantine hne⟩,
          u.activate_guards hrestores rfl rfl (.putBack hquarantine fun heq => heq ▸ hextracted)
            (hnext _) fun _ => hbackup⟩
  next => exact hvalid

theorem Rollback.guards (r : Rollback V R) (hrestores : ∀ op, r.restores op = true)
    (hhash : r.hashFails = false) (hvalid : root.validateActiveInstall verify = true) :
    Guards verify (Exposed root.state r.previous r.failure) root (r.ops verify root) := by
  obtain ⟨hlink, hactive⟩ := valid_iff.mp hvalid
  obtain ⟨versions, replaced, active, _⟩ := root
  obtain rfl : active = _ := hlink
  simp only [Rollback.ops, hhash, filter_eq_self.mpr fun op _ => hrestores op]
  split
  next hprevious =>
    cases r.failure with
    | none => simp [Guards, apply, Exposed, valid_switched hactive hprevious]
    | some stage =>
      cases stage <;>
        simp [Guards, apply, Exposed, valid_switched hactive hprevious, @eq_comm _ active]
  next => exact hvalid

/-- Wherever `upgrade` or `rollback` is killed, the root passes `validate_active_install`, except
at the exposed points. -/
theorem activation_crash_safe (verify : V → R → Bool) (root : Root V R)
    (hvalid : root.validateActiveInstall verify = true) :
    (∀ u : Upgrade V R, (∀ op, u.restores op = true) → ∀ done rest,
      u.ops verify root = done ++ rest →
      (∀ op ∈ rest.head?, ¬ op.Exposed root.state u.next u.failure) →
      (root.after done).validateActiveInstall verify = true) ∧
    (∀ r : Rollback V R, (∀ op, r.restores op = true) → r.hashFails = false → ∀ done rest,
      r.ops verify root = done ++ rest →
      (∀ op ∈ rest.head?, ¬ op.Exposed root.state r.previous r.failure) →
      (root.after done).validateActiveInstall verify = true) := by
  refine ⟨fun u hrestores done rest hops hnext => ?_,
    fun r hrestores hhash done rest hops hnext => ?_⟩
  · exact Guards.point (hops ▸ u.guards hrestores hvalid) hnext
  · exact Guards.point (hops ▸ r.guards hrestores hhash hvalid) hnext

def twoVersions : Root ℕ ℕ := ⟨fun v => if v ≤ 2 then some v else none, none, 1, 1⟩

/-- A release that is complete for version 2 replaces the directory of version 2. -/
def secondVersion : Upgrade ℕ ℕ := ⟨2, 2, fun _ => false, false, some .doctor, 0, fun _ => true⟩

/-- The activation fails at the doctor, and is restored. -/
theorem activation_crash_safe_second :
    (twoVersions.after [.quarantine 2, .publish 2 2]).validateActiveInstall (· == ·) = true ∧
      (twoVersions.after (secondVersion.ops (· == ·) twoVersions)).validateActiveInstall
        (· == ·) = true := by
  have h := (activation_crash_safe (fun v r : ℕ => v == r) twoVersions (by decide)).1 secondVersion
    fun _ => rfl
  exact ⟨h [.quarantine 2, .publish 2 2] _ rfl (by simp [Exposed, twoVersions, secondVersion]),
    h _ [] (append_nil _).symm (by simp)⟩

/-- A forced reinstallation of the active version, with another manifest. -/
def firstVersion : Upgrade ℕ ℕ := ⟨1, 1, fun _ => false, false, none, 0, fun _ => true⟩

/-- Killed between the switch of the link and the write of the state, and between the two renames
of the active directory. -/
theorem killed_activation_invalid : twoVersions.validateActiveInstall (fun v r => v == r) = true ∧
    secondVersion.ops (fun v r => v == r) twoVersions =
      [.quarantine 2, .publish 2 2, .replaceLink 2] ++
        [.writeState 2, .writeTrust, .replaceLink 1, .writeState 1, .writeTrust, .erode 2 0,
          .remove 2, .putBack 2] ∧
    (twoVersions.after [.quarantine 2, .publish 2 2, .replaceLink 2]).validateActiveInstall
      (fun v r => v == r) = false ∧ firstVersion.ops (fun v r => v == r) twoVersions =
      [.quarantine 1] ++ [.publish 1 1, .replaceLink 1, .writeState 1, .writeTrust] ∧
    (twoVersions.after [.quarantine 1]).validateActiveInstall (fun v r => v == r) = false :=
  ⟨by decide, rfl, by decide, rfl, by decide⟩

end Tysel.Release
