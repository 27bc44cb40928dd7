import Mathlib.Logic.Function.Basic

/-! The filesystem operations of `upgrade`, from the publication of the verified directory on, and
of `rollback`, in the order in which they are made. Downloads, temporary files and the doctor
touch neither the version directories nor the link, the state or the trust policy. -/

namespace Tysel.Release

open Function

/-- A managed root: the version directories, the replaced directory in the staging area, the
version that the bin link names and the active version of `state.json`. -/
structure Root (V R : Type) where
  versions : V → Option R
  replaced : Option R
  link : V
  state : V

/-- The operations on these objects. `erode` is a removal of a directory that is not finished. -/
inductive FsOp (V R : Type) where
  | quarantine (version : V)
  | publish (version : V) (release : R)
  | putBack (version : V)
  | erode (version : V) (rest : R)
  | remove (version : V)
  | replaceLink (version : V)
  | writeState (version : V)
  | writeTrust

variable {V R : Type} [DecidableEq V] (verify : V → R → Bool) (root : Root V R)

def FsOp.apply : FsOp V R → Root V R
  | .quarantine version => { root with
      replaced := root.versions version
      versions := update root.versions version none }
  | .publish version release => { root with
      versions := update root.versions version (some release) }
  | .putBack version => { root with
      replaced := none
      versions := update root.versions version root.replaced }
  | .erode version rest => { root with
      versions := update root.versions version (some rest) }
  | .remove version => { root with versions := update root.versions version none }
  | .replaceLink version => { root with link := version }
  | .writeState version => { root with state := version }
  | .writeTrust => root

/-- The step of an activation that fails. -/
inductive Stage where
  | link | state | trust | doctor
  deriving DecidableEq

/-- An upgrade: the selected version, its extracted release, which installed releases have the
same manifest, and what fails: the publication, a step of the activation or operations of the
restoration. `rest` is what an unfinished removal leaves. -/
structure Upgrade (V R : Type) where
  next : V
  extracted : R
  sameManifest : R → Bool
  publishFails : Bool
  failure : Option Stage
  rest : R
  restores : FsOp V R → Bool

/-- The activation, and the restoration when it fails. -/
def Upgrade.activate (u : Upgrade V R) (root : Root V R) (replacedDestination : Bool) :
    List (FsOp V R) :=
  let directory : List (FsOp V R) :=
    if replacedDestination then [.erode u.next u.rest, .remove u.next, .putBack u.next] else []
  let restoration :=
    (.replaceLink root.link :: .writeState root.state :: .writeTrust :: directory).filter u.restores
  match u.failure with
  | none => [.replaceLink u.next, .writeState u.next, .writeTrust]
  | some .link => restoration
  | some .state => .replaceLink u.next :: restoration
  | some .trust => .replaceLink u.next :: .writeState u.next :: restoration
  | some .doctor =>
    .replaceLink u.next :: .writeState u.next :: .writeTrust :: restoration

/-- The operations of `upgrade`. `verify` is `verify_installation` of a directory with its own
manifest. -/
def Upgrade.ops (u : Upgrade V R) (root : Root V R) : List (FsOp V R) :=
  if verify u.next u.extracted then
    match root.versions u.next with
    | none => if u.publishFails then [] else .publish u.next u.extracted :: u.activate root false
    | some existing =>
      if verify u.next existing && u.sameManifest existing then u.activate root false
      else if u.publishFails then
        .quarantine u.next :: [.putBack u.next].filter u.restores
      else .quarantine u.next :: .publish u.next u.extracted :: u.activate root true
  else []

/-- A rollback to the previous version of the state. -/
structure Rollback (V R : Type) where
  previous : V
  hashFails : Bool
  failure : Option Stage
  restores : FsOp V R → Bool

def Rollback.ops (r : Rollback V R) (root : Root V R) : List (FsOp V R) :=
  let restoration := [FsOp.replaceLink root.link, .writeState root.state].filter r.restores
  if (root.versions r.previous).any (verify r.previous) then
    match r.failure, r.hashFails with
    | some .link, _ => []
    -- the digest of the manifest is taken after the switch, and its failure restores nothing
    | _, true => [.replaceLink r.previous]
    | some .state, _ => .replaceLink r.previous :: restoration
    | some .doctor, _ => .replaceLink r.previous :: .writeState r.previous :: restoration
    | _, _ => [.replaceLink r.previous, .writeState r.previous]
  else []

def Root.validateActiveInstall : Bool :=
  root.link = root.state && (root.versions root.state).any (verify root.state)

end Tysel.Release
