/-
Preparing an artifact under a cache root that several caches share.

`runtime/src/artifacts/prepared-artifact-cache.ts`: a preparation extracts the archive into a
temporary directory, renames that to `.objects/<digest>`, and links a pointer to it at `<digest>`.
Who comes second at either point goes on with what the other one left.

A step is one operation of the shared part of the root, or a stretch of operations elsewhere; any
of them may fail, and `rename` and `link` are exclusive.
-/
import TegoNext.Machine
import TegoNext.Text

set_option autoImplicit false

namespace TegoNext

open Text List Option Except

/-! ## The cache root -/

/-- What `readPublishedRoot` can answer. -/
inductive PublishedRoot where
  /-- The target itself, as earlier versions left it. -/
  | target
  /-- `.objects/<digest>/artifact`. -/
  | object
  /-- `.object-<name>/artifact`, as earlier versions left it. -/
  | legacy (name : JsString)
  deriving DecidableEq

/-- The entry `<digest>` of the root. -/
inductive TargetEntry where
  | directory
  /-- A short file without write permission. -/
  | pointer (value : JsString)
  /-- A link, or another file. -/
  | invalid
  deriving DecidableEq

structure ObjectDirectory where
  /-- The preparation that renamed it; none of them if it was there before. -/
  maker : Option Nat
  /-- Complete and read-only, as it was renamed. -/
  intact : Bool
  deriving DecidableEq

structure CacheRoot where
  target : Option TargetEntry
  object : Option ObjectDirectory
  /-- The names of the `.object-<name>` that stand. -/
  legacy : List JsString

/-- `objectPath`, with the directory of the artifact. -/
def objectRelative (digest : JsString) : JsString := js ".objects/" ++ digest ++ js "/artifact"

/-- `[A-Za-z0-9_-]`. -/
def isObjectNameUnit (u : UInt16) : Bool := isAlphanumeric u || u == 95 || u == 45

/-- `/^\.object-[A-Za-z0-9_-]+\/artifact$/u`, with the name it matches. -/
def legacyName (relative : JsString) : Option JsString :=
  let name := (relative.drop 8).take (relative.length - 17)
  if relative = js ".object-" ++ name ++ js "/artifact" && !name.isEmpty &&
      name.all isObjectNameUnit then some name
  else none

/-- What the text of a pointer says. -/
def pointedRoot (digest value : JsString) : Option PublishedRoot :=
  let relative := if value.getLast? = some 10 then value.dropLast else []
  if relative = objectRelative digest then some .object
  else (legacyName relative).map .legacy

/-- The file of `writePublicationPointer`. -/
def publicationPointer (digest : JsString) : TargetEntry := .pointer (objectRelative digest ++ [10])

namespace CacheRoot

def named (digest : JsString) (s : CacheRoot) : Option PublishedRoot :=
  s.target.bind fun
    | .directory => some .target
    | .pointer value => pointedRoot digest value
    | .invalid => none

def stands (s : CacheRoot) : PublishedRoot → Bool
  | .target => s.target = some .directory
  | .object => s.object.any (·.intact)
  | .legacy name => s.legacy.contains name

/-- Is there a directory for `lstat` to find? -/
def isThere (s : CacheRoot) : PublishedRoot → Bool
  | .target => s.target = some .directory
  | .object => s.object.isSome
  | .legacy name => s.legacy.contains name

def readPublishedRoot (digest : JsString) (s : CacheRoot) : Option PublishedRoot :=
  (s.named digest).filter s.isThere

end CacheRoot

/-! ## A preparation -/

/-- `cleanupRootPath`, where there is one. -/
inductive CleanupRootPath where
  | temporary
  | objectWrapper
  deriving DecidableEq

inductive PreparationStep where
  /-- Extract the archive, and make the staging tree read-only. -/
  | extract
  /-- `lstat(target)` -/
  | findTarget
  | readTarget (linked : Bool)
  /-- Begin with `snapshotDirectory(publishedRoot)`. -/
  | inspectPublished (linked : Bool) (root : PublishedRoot)
  /-- Compare it with the prepared snapshot. -/
  | comparePublished (linked : Bool) (root : PublishedRoot)
  /-- The pointer file, and the namespace of the objects. -/
  | writePointer
  /-- `rename(temporary, objectWrapper)` -/
  | renameObject
  | syncObjects
  /-- Begin with `snapshotDirectory(candidateRoot)`. -/
  | inspectCandidate
  | compareCandidate
  | beforePointerPublish
  /-- `link(linkSource, target)` -/
  | linkPointer
  | syncPointer
  | afterPublish
  /-- `removeTree(cleanupRootPath)`, until the tree is changed. -/
  | cleanup
  | removeTree
  | finished
  deriving DecidableEq

structure Preparation where
  step : PreparationStep
  ownsObject : Bool
  cleanupRootPath : Option CleanupRootPath
  /-- The root of the artifact that is entered into `#entries`. -/
  result : Option PublishedRoot
  failed : Bool
  cleanupFailed : Bool
  deriving DecidableEq

/-- After `mkdtemp`. -/
def Preparation.new : Preparation where
  step := .extract
  ownsObject := false
  cleanupRootPath := some .temporary
  result := none
  failed := false
  cleanupFailed := false

inductive FileErrorCode where
  | EEXIST
  | ENOTEMPTY
  | EACCES
  | other
  deriving DecidableEq

inductive StepOutcome where
  | ok
  | error (code : FileErrorCode)
  deriving DecidableEq

/-- The errors of `rename` after which a preparation goes on. -/
def FileErrorCode.refusesRename : FileErrorCode → Bool
  | .EEXIST | .ENOTEMPTY | .EACCES => true
  | .other => false

/-- A step ends, with what it makes of the root, or throws an error of this code. -/
abbrev Attempt : Type := Except FileErrorCode (CacheRoot × Preparation)

namespace Preparation

def go (p : Preparation) (step : PreparationStep) : Preparation := { p with step := step }

def enter (p : Preparation) (root : PublishedRoot) : Preparation :=
  { p with result := some root, step := .cleanup }

/-- `#prepare` up to its `catch`: one step of the preparation `i`. -/
def attempt (digest : JsString) (s : CacheRoot) (i : Nat) (p : Preparation)
    (outcome : StepOutcome) : Attempt :=
  match p.step, outcome with
  | .renameObject, .error code =>
    if code.refusesRename then .ok (s, p.go .inspectCandidate) else .error code
  | .syncObjects, .error code =>
    if code.refusesRename then .ok (s, p.go .inspectCandidate) else .error code
  | .linkPointer, .error .EEXIST => .ok (s, p.go (.readTarget true))
  | .syncPointer, .error .EEXIST => .ok (s, p.go (.readTarget true))
  | .afterPublish, .error .EEXIST => .ok (s, p.go (.readTarget true))
  | _, .error code => .error code
  | .extract, .ok => .ok (s, p.go .findTarget)
  | .findTarget, .ok =>
    .ok (s, p.go (if s.target.isSome then .readTarget false else .writePointer))
  | .readTarget linked, .ok =>
    match s.readPublishedRoot digest with
    | none => .error .other
    | some root => .ok (s, p.go (.inspectPublished linked root))
  | .inspectPublished linked root, .ok =>
    if s.stands root then .ok (s, p.go (.comparePublished linked root)) else .error .other
  | .comparePublished linked root, .ok =>
    if linked && p.ownsObject && root = .object then
      .ok (s, { p with cleanupRootPath := none }.enter root)
    else .ok (s, p.enter root)
  | .writePointer, .ok => .ok (s, p.go .renameObject)
  | .renameObject, .ok =>
    if s.object.isSome then .ok (s, p.go .inspectCandidate)
    else
      .ok ({ s with object := some ⟨some i, true⟩ },
        { p with
          ownsObject := true
          cleanupRootPath := some .objectWrapper
          step := .syncObjects })
  | .syncObjects, .ok => .ok (s, p.go .inspectCandidate)
  | .inspectCandidate, .ok =>
    -- the snapshot is compared with identities if the object is its own
    if s.stands .object && (!p.ownsObject || s.object.any (·.maker = some i)) then
      .ok (s, p.go .compareCandidate)
    else .error .other
  | .compareCandidate, .ok => .ok (s, p.go .beforePointerPublish)
  | .beforePointerPublish, .ok => .ok (s, p.go .linkPointer)
  | .linkPointer, .ok =>
    if s.target.isSome then .ok (s, p.go (.readTarget true))
    else if p.ownsObject && s.object.isNone then .error .other
    else .ok ({ s with target := some (publicationPointer digest) }, p.go .syncPointer)
  | .syncPointer, .ok =>
    .ok (s, { p with
      cleanupRootPath := if p.ownsObject then none else p.cleanupRootPath
      step := .afterPublish })
  | .afterPublish, .ok => .ok (s, p.enter .object)
  | .cleanup, .ok | .removeTree, .ok | .finished, .ok => .error .other

/-- The `finally` of `#prepare`: `removeTree` makes the tree writable, and then removes it. -/
def clean (s : CacheRoot) (p : Preparation) (outcome : StepOutcome) : CacheRoot × Preparation :=
  match p.cleanupRootPath, outcome with
  | none, _ => (s, p.go .finished)
  | some _, .error _ => (s, { p.go .finished with cleanupFailed := true })
  | some .temporary, .ok => (s, p.go .finished)
  | some .objectWrapper, .ok =>
    if p.step = .removeTree then ({ s with object := none }, p.go .finished)
    else ({ s with object := s.object.map ({ · with intact := false }) }, p.go .removeTree)

/-- Is it past its `catch`? -/
def cleans (p : Preparation) : Bool :=
  p.step = .cleanup || p.step = .removeTree || p.step = .finished

def throws (digest : JsString) (s : CacheRoot) (i : Nat) (p : Preparation)
    (outcome : StepOutcome) : Bool :=
  !p.cleans && match p.attempt digest s i outcome with
    | .error _ => true
    | .ok _ => false

def removesObject (p : Preparation) : Bool :=
  p.cleanupRootPath = some .objectWrapper && (p.step = .cleanup || p.step = .removeTree)

end Preparation

/-! ## The machine -/

/-- The caches of one root, as far as one digest goes. -/
structure PreparedCaches where
  root : CacheRoot
  preparations : List Preparation

inductive PreparationLabel where
  | start
  | step (i : Nat) (outcome : StepOutcome)

namespace PreparedCaches

/-- The preparation `i` and the root change. -/
def update (s : PreparedCaches) (i : Nat) (root : CacheRoot) (p : Preparation) : PreparedCaches where
  root := root
  preparations := s.preparations.set i p

def step (digest : JsString) (s : PreparedCaches) : PreparationLabel → Option PreparedCaches
  | .start => some { s with preparations := s.preparations ++ [Preparation.new] }
  | .step i outcome =>
    match s.preparations[i]? with
    | none => none
    | some p =>
      if p.step = .finished then none
      else if p.cleans then
        let cleaned := p.clean s.root outcome
        some (s.update i cleaned.1 cleaned.2)
      else
        match p.attempt digest s.root i outcome with
        | .ok (root, p) => some (s.update i root p)
        | .error _ =>
          some (s.update i s.root
            { p with
              failed := true
              step := .cleanup })

/-- What the target names stands. -/
def Pointed (digest : JsString) (root : CacheRoot) : Prop :=
  ∀ published, root.named digest = some published → root.stands published = true

/-- Preparations begin with a root whose target names nothing that is missing. -/
def machine (digest : JsString) : Machine PreparedCaches PreparationLabel where
  Init s := s.preparations = [] ∧ Pointed digest s.root
  step := step digest

structure StaysPublished (digest : JsString) (s : PreparedCaches) : Prop where
  entered : ∀ p ∈ s.preparations, ∀ published, p.result = some published →
    s.root.stands published = true
  pointed : Pointed digest s.root

/-- A preparation throws that would remove the object directory, and there is a target; or the
pointer is linked while the object directory is to be removed, or is no longer there. -/
def harmful (digest : JsString) (s : PreparedCaches) : PreparationLabel → Bool
  | .start => false
  | .step i outcome =>
    s.preparations[i]?.any fun p =>
      (p.cleanupRootPath = some .objectWrapper && p.throws digest s.root i outcome &&
        s.root.target.isSome) ||
      (p.step = .linkPointer && outcome = .ok && s.root.target.isNone &&
        (s.preparations.any (·.removesObject) || !s.root.stands .object))

end PreparedCaches

/-! ## What a preparation knows -/

theorem pointedRoot_publicationPointer (digest : JsString) :
    pointedRoot digest (objectRelative digest ++ [10]) = some .object := by
  unfold pointedRoot
  rw [getLast?_concat, if_pos rfl, dropLast_concat, if_pos rfl]

namespace Preparation

variable {digest : JsString} {s s' : CacheRoot} {i : Nat} {p p' : Preparation}
  {outcome : StepOutcome} {named : Option PublishedRoot}

/-- What a preparation has found, and that it removes nothing that is named. -/
def Knows (named : Option PublishedRoot) (p : Preparation) : Prop :=
  match p.step with
  | .extract | .findTarget | .readTarget false => p.cleanupRootPath ≠ some .objectWrapper
  | .inspectPublished linked root | .comparePublished linked root =>
    named = some root ∧ (linked = false → p.cleanupRootPath ≠ some .objectWrapper)
  | .syncPointer => named = some .object
  | .afterPublish => named = some .object ∧ p.cleanupRootPath ≠ some .objectWrapper
  | .cleanup => p.cleanupRootPath = some .objectWrapper → named ≠ some .object
  | .removeTree => p.cleanupRootPath = some .objectWrapper ∧ named ≠ some .object
  | _ => True

/-- The invariant of a preparation, where the target names `named`. -/
structure Sound (named : Option PublishedRoot) (p : Preparation) : Prop where
  result : ∀ root, p.result = some root → named = some root
  owner : p.cleanupRootPath = some .objectWrapper → p.ownsObject = true
  knows : p.Knows named

theorem sound_new (named : Option PublishedRoot) : Preparation.new.Sound named where
  result _ h := by cases h
  owner h := by cases h
  knows h := by cases h

theorem Sound.go (h : p.Sound named) {step : PreparationStep}
    (hknows : (p.go step).Knows named) : (p.go step).Sound named :=
  ⟨h.result, h.owner, hknows⟩

/-- What a step does that does not throw. -/
inductive Attempted (digest : JsString) (s : CacheRoot) (i : Nat) (p : Preparation)
    (outcome : StepOutcome) (s' : CacheRoot) (p' : Preparation) : Prop
  | kept (h : s' = s) (hp : p'.Sound (s.named digest))
  | renamed (hnone : s.object = none) (h : s' = { s with object := some ⟨some i, true⟩ })
      (hp : p'.Sound (s.named digest))
  | linked (hstep : p.step = .linkPointer) (houtcome : outcome = .ok) (hnone : s.target = none)
      (h : s' = { s with target := some (publicationPointer digest) }) (hp : p' = p.go .syncPointer)

theorem attempted_go (hp : p.Sound (s.named digest)) {step : PreparationStep}
    (h : (Except.ok (s, p.go step) : Attempt) = .ok (s', p'))
    (hknows : (p.go step).Knows (s.named digest)) : Attempted digest s i p outcome s' p' := by
  obtain ⟨rfl, rfl⟩ := Prod.mk.inj (ok.inj h)
  exact .kept rfl (hp.go hknows)

theorem attempted_enter {path : Option CleanupRootPath} {root : PublishedRoot}
    (howner : path = some .objectWrapper → p.ownsObject = true)
    (h : (Except.ok (s, { p with cleanupRootPath := path }.enter root) : Attempt) = .ok (s', p'))
    (hnamed : s.named digest = some root) (hpath : path = some .objectWrapper → root ≠ .object) :
    Attempted digest s i p outcome s' p' := by
  obtain ⟨rfl, rfl⟩ := Prod.mk.inj (ok.inj h)
  refine .kept rfl ⟨fun other hother => ?_, howner, fun hwrapper hobject => ?_⟩
  · obtain rfl := some.inj hother
    exact hnamed
  · exact hpath hwrapper (some.inj (hnamed.symm.trans hobject))

theorem attempted (h : p.attempt digest s i outcome = .ok (s', p'))
    (hp : p.Sound (s.named digest)) : Attempted digest s i p outcome s' p' := by
  have hknows := hp.knows
  unfold Knows at hknows
  unfold attempt at h
  cases hstep : p.step with
  | extract =>
    rw [hstep] at h hknows
    cases outcome with
    | error code => cases h
    | ok => exact attempted_go hp h hknows
  | findTarget =>
    rw [hstep] at h hknows
    cases outcome with
    | error code => cases h
    | ok =>
      refine attempted_go hp h ?_
      split
      · exact hknows
      · exact trivial
  | readTarget linked =>
    rw [hstep] at h hknows
    cases outcome with
    | error code => cases h
    | ok =>
      dsimp only at h
      split at h
      · cases h
      next root hread =>
      refine attempted_go hp h ⟨(filter_eq_some_iff.mp hread).1, ?_⟩
      rintro rfl
      exact hknows
  | inspectPublished linked root =>
    rw [hstep] at h hknows
    cases outcome with
    | error code => cases h
    | ok =>
      dsimp only at h
      split at h
      · exact attempted_go hp h hknows
      · cases h
  | comparePublished linked root =>
    rw [hstep] at h hknows
    cases outcome with
    | error code => cases h
    | ok =>
      dsimp only at h
      split at h
      · exact attempted_enter (fun hnone => (by cases hnone)) h hknows.1
          fun hnone => (by cases hnone)
      next hkept =>
      refine attempted_enter hp.owner h hknows.1 fun hwrapper hroot => hkept ?_
      have howner := hp.owner hwrapper
      cases linked with
      | false => exact absurd hwrapper (hknows.2 rfl)
      | true => rw [howner, decide_eq_true hroot]; rfl
  | writePointer =>
    rw [hstep] at h
    cases outcome with
    | error code => cases h
    | ok => exact attempted_go hp h trivial
  | renameObject =>
    rw [hstep] at h
    cases outcome with
    | error code =>
      dsimp only at h
      split at h
      · exact attempted_go hp h trivial
      · cases h
    | ok =>
      dsimp only at h
      split at h
      · exact attempted_go hp h trivial
      next hnone =>
      obtain ⟨rfl, rfl⟩ := Prod.mk.inj (ok.inj h)
      exact .renamed (not_isSome_iff_eq_none.mp hnone) rfl ⟨hp.result, fun _ => rfl, trivial⟩
  | syncObjects =>
    rw [hstep] at h
    cases outcome with
    | error code =>
      dsimp only at h
      split at h
      · exact attempted_go hp h trivial
      · cases h
    | ok => exact attempted_go hp h trivial
  | inspectCandidate =>
    rw [hstep] at h
    cases outcome with
    | error code => cases h
    | ok =>
      dsimp only at h
      split at h
      · exact attempted_go hp h trivial
      · cases h
  | compareCandidate | beforePointerPublish =>
    rw [hstep] at h
    cases outcome with
    | error code => cases h
    | ok => exact attempted_go hp h trivial
  | linkPointer =>
    rw [hstep] at h
    cases outcome with
    | error code =>
      cases code with
      | EEXIST => exact attempted_go hp h trivial
      | _ => cases h
    | ok =>
      dsimp only at h
      split at h
      · exact attempted_go hp h trivial
      next hnone =>
      split at h
      · cases h
      · obtain ⟨rfl, rfl⟩ := Prod.mk.inj (ok.inj h)
        exact .linked hstep rfl (not_isSome_iff_eq_none.mp hnone) rfl rfl
  | syncPointer =>
    rw [hstep] at h hknows
    cases outcome with
    | error code =>
      cases code with
      | EEXIST => exact attempted_go hp h trivial
      | _ => cases h
    | ok =>
      obtain ⟨rfl, rfl⟩ := Prod.mk.inj (ok.inj h)
      have hgiven : (if p.ownsObject then none else p.cleanupRootPath) ≠
          some CleanupRootPath.objectWrapper := by
        split
        · exact fun hnone => by cases hnone
        · next hnot => exact fun hwrapper => hnot (hp.owner hwrapper)
      exact .kept rfl ⟨hp.result, fun hwrapper => absurd hwrapper hgiven, hknows, hgiven⟩
  | afterPublish =>
    rw [hstep] at h hknows
    cases outcome with
    | error code =>
      cases code with
      | EEXIST => exact attempted_go hp h trivial
      | _ => cases h
    | ok =>
      exact attempted_enter hp.owner h hknows.1 fun hwrapper => absurd hwrapper hknows.2
  | cleanup =>
    rw [hstep] at h
    cases outcome with
    | error code => cases h
    | ok => cases h
  | removeTree =>
    rw [hstep] at h
    cases outcome with
    | error code => cases h
    | ok => cases h
  | finished =>
    rw [hstep] at h
    cases outcome with
    | error code => cases h
    | ok => cases h

theorem Sound.linked (h : p.Sound none) (hkept : p.removesObject = false) :
    p.Sound (some .object) := by
  have hknows := h.knows
  have hwrapper : p.step = .cleanup ∨ p.step = .removeTree →
      p.cleanupRootPath ≠ some .objectWrapper := fun hstep hpath => by
    unfold removesObject at hkept
    rw [decide_eq_true hpath, Bool.true_and, Bool.or_eq_false_iff, decide_eq_false_iff_not,
      decide_eq_false_iff_not] at hkept
    exact hstep.elim hkept.1 hkept.2
  refine ⟨fun root hroot => (by cases h.result root hroot), h.owner, ?_⟩
  unfold Knows at hknows ⊢
  split
  · next hstep => rwa [hstep] at hknows
  · next hstep => rwa [hstep] at hknows
  · next hstep => rwa [hstep] at hknows
  · next hstep =>
    rw [hstep] at hknows
    cases hknows.1
  · next hstep =>
    rw [hstep] at hknows
    cases hknows.1
  · rfl
  · next hstep =>
    rw [hstep] at hknows
    cases hknows.1
  · next hstep => exact fun hpath => absurd hpath (hwrapper (.inl hstep))
  · next hstep =>
    rw [hstep] at hknows
    exact absurd hknows.1 (hwrapper (.inr hstep))
  · trivial

/-- Removing the object directory, or something else. -/
inductive Cleaned (digest : JsString) (s s' : CacheRoot) (p' : Preparation) : Prop
  | kept (h : s' = s) (hp : p'.Sound (s.named digest))
  | object (hnamed : s.named digest ≠ some .object) (htarget : s'.target = s.target)
      (hlegacy : s'.legacy = s.legacy) (hp : p'.Sound (s.named digest))

theorem cleaned (hp : p.Sound (s.named digest)) (hcleans : p.cleans = true)
    (hopen : p.step ≠ .finished) :
    Cleaned digest s (p.clean s outcome).1 (p.clean s outcome).2 := by
  have hfinished : (p.go .finished).Sound (s.named digest) := hp.go trivial
  have hknows := hp.knows
  unfold clean
  split
  · exact .kept rfl hfinished
  · exact .kept rfl ⟨hp.result, hp.owner, trivial⟩
  · exact .kept rfl hfinished
  · next hpath =>
    split
    · next hstep =>
      rw [Knows, hstep] at hknows
      exact .object hknows.2 rfl rfl hfinished
    next hstep =>
    have hcleanup : p.step = .cleanup := by
      rw [cleans, decide_eq_false hstep, decide_eq_false hopen, Bool.or_false, Bool.or_false,
        decide_eq_true_eq] at hcleans
      exact hcleans
    rw [Knows, hcleanup] at hknows
    exact .object (hknows hpath) rfl rfl (hp.go ⟨hpath, hknows hpath⟩)

end Preparation

/-! ## Runs -/

namespace PreparedCaches

variable {digest : JsString} {s s' : PreparedCaches} {i : Nat} {root : CacheRoot}
  {p : Preparation}

structure CacheInv (digest : JsString) (s : PreparedCaches) : Prop where
  pointed : Pointed digest s.root
  sound : ∀ p ∈ s.preparations, p.Sound (s.root.named digest)

theorem sound_update (h : ∀ q ∈ s.preparations, q.Sound (root.named digest))
    (hp : p.Sound (root.named digest)) :
    ∀ q ∈ (s.update i root p).preparations, q.Sound ((s.update i root p).root.named digest) := by
  intro q hq
  rcases mem_or_eq_of_mem_set hq with hold | rfl
  · exact h q hold
  · exact hp

theorem pointed_of_object (h : Pointed digest s.root)
    (hnamed : s.root.named digest ≠ some .object) (htarget : root.target = s.root.target)
    (hlegacy : root.legacy = s.root.legacy) : Pointed digest root := by
  intro published hpublished
  have hbefore : s.root.named digest = some published := by
    rwa [CacheRoot.named, ← htarget]
  have hstands := h published hbefore
  cases published with
  | target => rwa [CacheRoot.stands, htarget]
  | object => exact absurd hbefore hnamed
  | legacy name => rwa [CacheRoot.stands, hlegacy]

theorem CacheInv.clean (h : CacheInv digest s) (hp : s.preparations[i]? = some p)
    (hcleans : p.cleans = true) (hopen : p.step ≠ .finished) (outcome : StepOutcome) :
    CacheInv digest (s.update i (p.clean s.root outcome).1 (p.clean s.root outcome).2) := by
  have hsound := h.sound p (mem_of_getElem? hp)
  generalize hclean : p.clean s.root outcome = cleaned
  have hcleaned : Preparation.Cleaned digest s.root cleaned.1 cleaned.2 :=
    hclean ▸ Preparation.cleaned hsound hcleans hopen
  cases hcleaned with
  | kept hroot hp' =>
    rw [hroot]
    exact ⟨h.pointed, sound_update h.sound hp'⟩
  | object hnamed htarget hlegacy hp' =>
    have hsame : cleaned.1.named digest = s.root.named digest := by
      rw [CacheRoot.named, htarget, CacheRoot.named]
    rw [← hsame] at hp'
    exact ⟨pointed_of_object h.pointed hnamed htarget hlegacy,
      sound_update (hsame.symm ▸ h.sound) hp'⟩

theorem CacheInv.attempt (h : CacheInv digest s) (hp : s.preparations[i]? = some p)
    {outcome : StepOutcome} {p' : Preparation}
    (hattempt : p.attempt digest s.root i outcome = .ok (root, p'))
    (hsafe : harmful digest s (.step i outcome) = false) : CacheInv digest (s.update i root p') := by
  have hsound := h.sound p (mem_of_getElem? hp)
  cases Preparation.attempted hattempt hsound with
  | kept hroot hp' =>
    rw [hroot]
    exact ⟨h.pointed, sound_update h.sound hp'⟩
  | renamed hnone hroot hp' =>
    subst hroot
    refine ⟨fun published hpublished => ?_, sound_update h.sound hp'⟩
    have hstands := h.pointed published hpublished
    cases published with
    | target => exact hstands
    | object => rfl
    | legacy name => exact hstands
  | linked hstep houtcome hnone hroot hp' =>
    have hunnamed : s.root.named digest = none := by
      rw [CacheRoot.named, hnone]
      rfl
    have hnamed : root.named digest = some .object := by
      rw [hroot]
      exact pointedRoot_publicationPointer digest
    rw [harmful, hp, any_some, Bool.or_eq_false_iff, decide_eq_true hstep,
      decide_eq_true houtcome, hnone] at hsafe
    obtain ⟨hremoves, hobject⟩ := Bool.or_eq_false_iff.mp hsafe.2
    rw [List.any_eq_false] at hremoves
    have hothers : ∀ q ∈ s.preparations, q.Sound (root.named digest) := fun q hq => by
      rw [hnamed]
      have hq' := h.sound q hq
      rw [hunnamed] at hq'
      exact hq'.linked (Bool.eq_false_iff.mpr (hremoves q hq))
    refine ⟨fun published hpublished => ?_, sound_update hothers ?_⟩
    · obtain rfl := some.inj (hnamed.symm.trans hpublished)
      rw [Bool.not_eq_false'] at hobject
      rw [update, hroot]
      exact hobject
    · rw [hp', hnamed]
      refine ⟨fun other hother => ?_, hsound.owner, rfl⟩
      have hfalse := hsound.result other hother
      rw [hunnamed] at hfalse
      cases hfalse

theorem CacheInv.throw (h : CacheInv digest s) (hp : s.preparations[i]? = some p)
    (hattempts : p.cleans = false) {outcome : StepOutcome} {code : FileErrorCode}
    (hattempt : p.attempt digest s.root i outcome = .error code)
    (hsafe : harmful digest s (.step i outcome) = false) :
    CacheInv digest (s.update i s.root
      { p with
        failed := true
        step := .cleanup }) := by
  have hsound := h.sound p (mem_of_getElem? hp)
  refine ⟨h.pointed, sound_update h.sound ⟨hsound.result, hsound.owner, fun hpath hobject => ?_⟩⟩
  have hthrows : p.throws digest s.root i outcome = true := by
    rw [Preparation.throws, hattempts, hattempt]
    rfl
  rw [harmful, hp, any_some, Bool.or_eq_false_iff, decide_eq_true hpath, hthrows] at hsafe
  have hnone : s.root.target = none := not_isSome_iff_eq_none.mp (Bool.eq_false_iff.mp hsafe.1)
  rw [CacheRoot.named, hnone] at hobject
  cases hobject

/-- **What one step preserves**, when it is not harmful. -/
theorem CacheInv.step {label : PreparationLabel} (h : CacheInv digest s)
    (hs : s.step digest label = some s') (hsafe : harmful digest s label = false) :
    CacheInv digest s' := by
  cases label with
  | start =>
    obtain rfl := some.inj hs
    refine ⟨h.pointed, fun q hq => ?_⟩
    rcases mem_append.mp hq with hold | hnew
    · exact h.sound q hold
    · obtain rfl := mem_singleton.mp hnew
      exact Preparation.sound_new _
  | step i outcome =>
    unfold PreparedCaches.step at hs
    dsimp only at hs
    split at hs
    · cases hs
    next p hp =>
    split at hs
    · cases hs
    next hopen =>
    split at hs
    · next hcleans =>
      obtain rfl := some.inj hs
      exact h.clean hp hcleans hopen outcome
    next hattempts =>
    split at hs
    · next hattempt =>
      obtain rfl := some.inj hs
      exact h.attempt hp hattempt hsafe
    next hattempt =>
    obtain rfl := some.inj hs
    exact h.throw hp (Bool.eq_false_iff.mpr hattempts) hattempt hsafe

/-- **Published artifacts stay published**, in runs without a harmful step. -/
theorem stays_published
    (hr : (machine digest).ReachableVia (fun s label _ => harmful digest s label = false) s) :
    StaysPublished digest s := by
  have hinv : CacheInv digest s :=
    hr.invariant (fun s h0 => ⟨h0.2, fun p hp => by
      rw [h0.1] at hp
      cases hp⟩) fun _ _ _ _ ih hs hsafe => ih.step hs hsafe
  exact ⟨fun p hp published hpublished =>
    hinv.pointed published ((hinv.sound p hp).result published hpublished), hinv.pointed⟩

/-! ## A preparation that fails after another has published -/

def emptyCaches : PreparedCaches where
  root := ⟨none, none, []⟩
  preparations := []

def sampleDigest : JsString := List.replicate 64 48

def undisturbed (i steps : Nat) : List PreparationLabel := List.replicate steps (.step i .ok)

theorem emptyCaches_init (digest : JsString) : (machine digest).Init emptyCaches :=
  ⟨rfl, fun published hpublished => by cases hpublished⟩

/-- One preparation publishes, and another one reads the pointer back. -/
theorem stays_published_twice :
    ∃ s : PreparedCaches,
      (machine sampleDigest).runIf (fun s label => !harmful sampleDigest s label) emptyCaches
        ([.start, .start] ++ undisturbed 0 7 ++ undisturbed 1 10 ++ undisturbed 0 5) = some s ∧
      s.preparations.map (·.result) = [some .object, some .object] ∧
      StaysPublished sampleDigest s := by
  have hrun : ((machine sampleDigest).runIf (fun s label => !harmful sampleDigest s label)
      emptyCaches ([.start, .start] ++ undisturbed 0 7 ++ undisturbed 1 10 ++ undisturbed 0 5)).map
        (fun s => s.preparations.map (·.result)) = some [some .object, some .object] := by
    decide +kernel
  obtain ⟨s, hs, hresult⟩ := map_eq_some_iff.mp hrun
  have hr := Machine.ReachableVia.of_runIf (.init (emptyCaches_init _)) hs
  exact ⟨s, hs, hresult,
    stays_published (hr.mono fun _ _ _ hsafe => (Bool.not_eq_true' _).mp hsafe)⟩

/-- One preparation renames the object, another finds it and links the pointer; then the hook of
the first one fails, and it removes the object. -/
theorem published_is_removed :
    ¬ ∀ (digest : JsString) (s : PreparedCaches), (machine digest).Reachable s →
      StaysPublished digest s := by
  intro hlaw
  have hrun : ((machine sampleDigest).run emptyCaches
      ([.start, .start] ++ undisturbed 0 7 ++ undisturbed 1 11 ++
        [.step 0 (.error .other), .step 0 .ok, .step 0 .ok])).map
        (fun s => (s.root.named sampleDigest, s.root.object)) = some (some .object, none) := by
    decide +kernel
  obtain ⟨s, hs, hend⟩ := map_eq_some_iff.mp hrun
  obtain ⟨hnamed, hobject⟩ := Prod.mk.inj hend
  have hstands := (hlaw sampleDigest s (.of_init_run (emptyCaches_init _) hs)).pointed _ hnamed
  rw [CacheRoot.stands, hobject] at hstands
  cases hstands

end PreparedCaches

end TegoNext
