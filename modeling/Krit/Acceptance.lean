import Krit.Errors
import Krit.Lib.History
import Mathlib.Data.Finset.Basic

/-!
# Accepting a proposal

`accept_reviewed` with `atomic_replace`, `install_checked_exchange` and `rollback_exchange`,
as a machine whose steps are the file operations, between which other programs may save the
target.
-/

namespace Krit.Assist

/-! ## Directories -/

/-- A file with the save of another program that wrote it, if one did. -/
structure File where
  content : ByteArray
  save : Option ℕ

/-- The target, and the names `.{name}.krit-assist-{process}-{id}` beside it. -/
inductive Name where
  | target
  | staged (id : ℕ)
deriving DecidableEq, Repr

/-- The names that are bound, with their files. -/
abbrev Directory := Name → Option File

namespace Directory

def bind (directory : Directory) (name : Name) (file : File) : Directory :=
  Function.update directory name (some file)

def remove (directory : Directory) (name : Name) : Directory :=
  Function.update directory name none

/-- Exchanges two names, both of which must be bound. -/
def exchange (directory : Directory) (first second : Name) : Option Directory :=
  match directory first, directory second with
  | some one, some two => some ((directory.bind first two).bind second one)
  | _, _ => none

/-- Some name is bound to the file. -/
def Holds (directory : Directory) (file : File) : Prop := ∃ name, directory name = some file

end Directory

/-! ## Acceptance -/

structure PermissionKey where
  capability : String
  resource : Option String
deriving DecidableEq, Repr

/-- What acceptance uses of a reviewed proposal. -/
structure ReviewedProposal where
  approvalRequired : Finset PermissionKey
  missingAfter : List PermissionKey
  manifestDigest : String
  baseSource : String
  candidate : String

/-- The operation that acceptance performs next. -/
inductive Phase where
  | reviewing
  | inspecting
  | linking
  | creating (attempts id : ℕ)
  | permitting (id : ℕ)
  | writing (id : ℕ)
  | discarding (id : ℕ) (error : AssistError)
  | exchanging (id : ℕ)
  | validating (id : ℕ)
  | finalizing (id : ℕ)
  | rollingBack (id : ℕ) (error : AssistError)
  | removing (id : ℕ) (error : AssistError)
  | accepted
  | failed (error : AssistError)
deriving DecidableEq, Repr

/-- What the system answers to an operation: whether it succeeds, and where the operation
asks for it, the manifest that was read, whether the target is a symbolic link, and what a
failed write has left. -/
structure Reply where
  succeeds : Bool
  manifest : Except AssistError String
  link : Bool
  written : ByteArray

/-- The directory and the next operation.  The other fields only record the run: how often
other programs have saved the target, the file that holds its latest content, what the
candidate displaced, and whether a save came after that. -/
structure State where
  directory : Directory
  phase : Phase
  saves : ℕ
  latest : File
  displaced : Option File
  disturbed : Bool

/-- A step of another program or of acceptance. -/
inductive Event where
  | save (content : ByteArray)
  | act (reply : Reply)

def maxSourceBytes : ℕ := 1024 * 1024

/-- `read_source`, as far as its success goes. -/
def readSource (content : ByteArray) : Option String :=
  if content.size > maxSourceBytes then none else String.fromUTF8? content

def stageAttempts : ℕ := 128

def notStaged : AssistError := .io "could not stage atomic output"
def notExchanged : AssistError := .io "could not atomically exchange assist target"
def notValidated : AssistError := .proposal "displaced assist source could not be validated"
def notFinalized : AssistError := .io "could not finalize atomic assist replacement"
def staleTarget : AssistError := .proposal "assist target changed before atomic exchange"
def notRolledBack : AssistError := .io "atomic assist rollback failed"
def notRemoved : AssistError := .io "could not remove rolled-back assist candidate"

section Acceptance

variable (digest : ByteArray → String) (reviewed : ReviewedProposal)
  (approvals : Finset PermissionKey) (firstId : ℕ)

def State.goTo (state : State) (phase : Phase) : State := { state with phase }

def State.fail (state : State) (error : AssistError) : State := state.goTo (.failed error)

/-- The file with the candidate. -/
def candidateFile : File := ⟨reviewed.candidate.toUTF8, none⟩

/-- The checks of `accept_reviewed` before the target is touched. -/
def review (state : State) (reply : Reply) : State :=
  if approvals ≠ reviewed.approvalRequired then
    state.fail (.permission
      "permission approvals must exactly match the surfaced authority expansion")
  else if reviewed.missingAfter ≠ [] then
    state.fail (.permission
      "candidate requires permissions not granted by the package manifest")
  else
    match reply.manifest with
    | .error error => state.fail error
    | .ok manifest =>
        if reviewed.manifestDigest ≠ digest manifest.toUTF8 then
          state.fail (.proposal "package manifest changed before acceptance")
        else state.goTo .inspecting

/-- One attempt to create a staged file, which must be new. -/
def create (state : State) (attempts id : ℕ) (reply : Reply) : State :=
  match attempts with
  | 0 => state.fail (.io "could not allocate staged atomic output")
  | attempts + 1 =>
      if !reply.succeeds then state.fail (.io "could not create staged atomic output")
      else if (state.directory (.staged id)).isSome then
        state.goTo (.creating attempts (id + 1))
      else
        { state with
          directory := state.directory.bind (.staged id) ⟨ByteArray.empty, none⟩
          phase := .permitting id }

/-- `write_all` and `sync_all` on the staged file. -/
def write (state : State) (id : ℕ) (reply : Reply) : State :=
  if reply.succeeds then
    { state with
      directory := state.directory.bind (.staged id) (candidateFile reviewed)
      phase := .exchanging id }
  else
    { state with
      directory := state.directory.bind (.staged id) ⟨reply.written, none⟩
      phase := .discarding id notStaged }

/-- The exchange of the candidate with the target. -/
def install (state : State) (id : ℕ) (reply : Reply) : State :=
  match state.directory.exchange (.staged id) .target, reply.succeeds with
  | some directory, true =>
      { state with
        directory
        phase := .validating id
        displaced := state.directory .target
        disturbed := false }
  | _, _ => state.goTo (.discarding id notExchanged)

/-- Reads what was displaced and compares its digest. -/
def validate (state : State) (id : ℕ) (reply : Reply) : State :=
  let displaced :=
    if reply.succeeds then (state.directory (.staged id)).bind fun file => readSource file.content
    else none
  match displaced with
  | none => state.goTo (.rollingBack id notValidated)
  | some displaced =>
      if digest displaced.toUTF8 = digest reviewed.baseSource.toUTF8 then
        state.goTo (.finalizing id)
      else state.goTo (.rollingBack id staleTarget)

/-- Removes a staged file; then goes on, or to where a failed removal leads. -/
def removeStaged (state : State) (id : ℕ) (reply : Reply) (removed kept : Phase) : State :=
  if reply.succeeds then
    { state with directory := state.directory.remove (.staged id), phase := removed }
  else state.goTo kept

/-- The exchange of `rollback_exchange`. -/
def rollback (state : State) (id : ℕ) (error : AssistError) (reply : Reply) : State :=
  match state.directory.exchange (.staged id) .target, reply.succeeds with
  | some directory, true => { state with directory, phase := .removing id error }
  | _, _ => state.fail notRolledBack

/-- The next operation of acceptance. -/
def act (state : State) (reply : Reply) : State :=
  match state.phase with
  | .reviewing => review digest reviewed approvals state reply
  | .inspecting =>
      if reply.succeeds then state.goTo .linking
      else state.fail (.io "could not inspect assist target")
  | .linking =>
      if reply.succeeds && reply.link then
        state.fail (.io "atomic output cannot replace a symbolic link")
      else state.goTo (.creating stageAttempts firstId)
  | .creating attempts id => create state attempts id reply
  | .permitting id =>
      if reply.succeeds then state.goTo (.writing id)
      else state.fail (.io "could not create staged atomic output")
  | .writing id => write reviewed state id reply
  | .discarding id error => removeStaged state id reply (.failed error) (.failed error)
  | .exchanging id => install state id reply
  | .validating id => validate digest reviewed state id reply
  | .finalizing id => removeStaged state id reply .accepted (.rollingBack id notFinalized)
  | .rollingBack id error => rollback state id error reply
  | .removing id error => removeStaged state id reply (.failed error) (.failed notRemoved)
  | .accepted | .failed _ => state

/-- Another program atomically replaces the target. -/
def save (state : State) (content : ByteArray) : State :=
  let file : File := ⟨content, some state.saves⟩
  { state with
    directory := state.directory.bind .target file
    saves := state.saves + 1
    latest := file
    disturbed := true }

def step (state : State) : Event → State
  | .save content => save state content
  | .act reply => act digest reviewed approvals firstId state reply

def run (state : State) (events : List Event) : State :=
  events.foldl (step digest reviewed approvals firstId) state

/-- Acceptance begins with the reviewed source in the target; names of staged files may be
taken. -/
def start (others : ℕ → Option ByteArray) : State :=
  let base : File := ⟨reviewed.baseSource.toUTF8, none⟩
  { directory := fun name =>
      match name with
      | .target => some base
      | .staged id => (others id).map fun content => ⟨content, none⟩
    phase := .reviewing
    saves := 0
    latest := base
    displaced := none
    disturbed := false }

end Acceptance

/-! ## What acceptance promises -/

/-- What acceptance promises where it reports: an accepted candidate has displaced the
reviewed source, and after an error the target holds what was saved last. -/
def Reports (reviewed : ReviewedProposal) (state : State) : Prop :=
  (state.phase = .accepted → ∃ file, state.displaced = some file ∧
    file.content = reviewed.baseSource.toUTF8) ∧
  ∀ error, state.phase = .failed error → state.directory .target = some state.latest

/-- No file that another program saved is lost, unless it is the reviewed source again. -/
def Keeps (reviewed : ReviewedProposal) (before after : Directory) : Prop :=
  ∀ file : File, file.save ≠ none → file.content ≠ reviewed.baseSource.toUTF8 →
    before.Holds file → after.Holds file

/-- Where the exchange is undone, the undoing succeeds exactly if no other program has saved
the target since the exchange. -/
def Undisturbed (state : State) (event : Event) : Prop :=
  ∀ id error reply, state.phase = .rollingBack id error → event = .act reply →
    (reply.succeeds = true ↔ state.disturbed = false)

/-! ## Files that are kept -/

section Keeping

variable {reviewed : ReviewedProposal} {directory : Directory}

theorem Directory.bind_same (name : Name) (file : File) :
    directory.bind name file name = some file := by
  simp [Directory.bind]

theorem Directory.bind_other {name other : Name} (hne : other ≠ name) (file : File) :
    directory.bind name file other = directory other := by
  simp [Directory.bind, hne]

theorem Directory.remove_same (name : Name) : directory.remove name name = none := by
  simp [Directory.remove]

theorem Directory.remove_other {name other : Name} (hne : other ≠ name) :
    directory.remove name other = directory other := by
  simp [Directory.remove, hne]

theorem Keeps.refl : Keeps reviewed directory directory := fun _ _ _ hholds => hholds

/-- A name may be bound anew where it did not hold a save of another program. -/
theorem Keeps.bind {name : Name} (hown : ∀ file, directory name = some file → file.save = none)
    (file : File) : Keeps reviewed directory (directory.bind name file) := by
  rintro other hsave - ⟨found, hfound⟩
  refine ⟨found, ?_⟩
  have hne : found ≠ name := by
    intro heq
    rw [heq] at hfound
    exact hsave (hown other hfound)
  rw [Directory.bind_other hne, hfound]

theorem Keeps.remove {name : Name}
    (hown : ∀ file, directory name = some file →
      file.save = none ∨ file.content = reviewed.baseSource.toUTF8) :
    Keeps reviewed directory (directory.remove name) := by
  rintro other hsave hcontent ⟨found, hfound⟩
  refine ⟨found, ?_⟩
  have hne : found ≠ name := by
    intro heq
    rw [heq] at hfound
    rcases hown other hfound with hnone | hbase
    · exact hsave hnone
    · exact hcontent hbase
  rw [Directory.remove_other hne, hfound]

theorem Directory.exchange_eq_some {first second : Name} {after : Directory} (hne : first ≠ second)
    (hexchange : directory.exchange first second = some after) :
    after first = directory second ∧ after second = directory first ∧
      ∀ other, other ≠ first → other ≠ second → after other = directory other := by
  unfold Directory.exchange at hexchange
  cases hfirst : directory first with
  | none =>
    rw [hfirst] at hexchange
    cases hexchange
  | some one =>
    cases hsecond : directory second with
    | none =>
      rw [hfirst, hsecond] at hexchange
      cases hexchange
    | some two =>
      rw [hfirst, hsecond, Option.some.injEq] at hexchange
      rw [← hexchange]
      refine ⟨?_, Directory.bind_same _ _, ?_⟩
      · rw [Directory.bind_other hne, Directory.bind_same]
      · intro other hone htwo
        rw [Directory.bind_other htwo, Directory.bind_other hone]

/-- An exchange keeps every file. -/
theorem Keeps.exchange {first second : Name} {after : Directory} (hne : first ≠ second)
    (hexchange : directory.exchange first second = some after) :
    Keeps reviewed directory after := by
  obtain ⟨hfirst, hsecond, hothers⟩ := Directory.exchange_eq_some hne hexchange
  rintro file - - ⟨name, hname⟩
  by_cases hone : name = first
  · exact ⟨second, by rw [hsecond, ← hone, hname]⟩
  · by_cases htwo : name = second
    · exact ⟨first, by rw [hfirst, ← htwo, hname]⟩
    · exact ⟨name, by rw [hothers name hone htwo, hname]⟩

end Keeping

/-! ## The invariant -/

section Invariant

variable {digest : ByteArray → String} {reviewed : ReviewedProposal}
  {approvals : Finset PermissionKey} {firstId : ℕ} {state : State}

/-- The saves are all in the target. -/
structure Quiet (state : State) : Prop where
  target : state.directory .target = some state.latest
  staged : ∀ id file, state.directory (.staged id) = some file → file.save = none

/-- The candidate has been exchanged with what is now the staged file. -/
structure Exchanged (reviewed : ReviewedProposal) (state : State) (id : ℕ) (file : File) :
    Prop where
  displaced : state.displaced = some file
  staged : state.directory (.staged id) = some file
  others : ∀ other found, other ≠ id → state.directory (.staged other) = some found →
    found.save = none
  calm : state.disturbed = false →
    state.directory .target = some (candidateFile reviewed) ∧ file = state.latest
  saved : state.disturbed = true → state.directory .target = some state.latest

def Invariant (reviewed : ReviewedProposal) (state : State) : Prop :=
  match state.phase with
  | .exchanging id =>
      Quiet state ∧ state.directory (.staged id) = some (candidateFile reviewed)
  | .validating id | .rollingBack id _ => ∃ file, Exchanged reviewed state id file
  | .finalizing id => ∃ file, Exchanged reviewed state id file ∧
      file.content = reviewed.baseSource.toUTF8
  | .accepted => ∃ file, state.displaced = some file ∧
      file.content = reviewed.baseSource.toUTF8
  | .failed _ => state.directory .target = some state.latest
  | _ => Quiet state

theorem Quiet.goTo (hquiet : Quiet state) (phase : Phase) : Quiet (state.goTo phase) :=
  ⟨hquiet.target, hquiet.staged⟩

theorem Exchanged.goTo {id : ℕ} {file : File} (hexchanged : Exchanged reviewed state id file)
    (phase : Phase) : Exchanged reviewed (state.goTo phase) id file :=
  ⟨hexchanged.displaced, hexchanged.staged, hexchanged.others, hexchanged.calm, hexchanged.saved⟩

theorem staged_ne {id other : ℕ} (hne : other ≠ id) : Name.staged other ≠ .staged id := by
  intro heq
  exact hne (Name.staged.inj heq)

theorem target_ne_staged (id : ℕ) : Name.target ≠ .staged id := by
  intro heq
  cases heq

/-- A staged file of acceptance is bound to a new file of its own. -/
theorem Quiet.bind (hquiet : Quiet state) (id : ℕ) (content : ByteArray) (phase : Phase) :
    Quiet { state with
      directory := state.directory.bind (.staged id) ⟨content, none⟩, phase } := by
  constructor
  · dsimp only
    rw [Directory.bind_other (target_ne_staged id)]
    exact hquiet.target
  · intro other file hfile
    dsimp only at hfile
    by_cases hsame : other = id
    · rw [hsame, Directory.bind_same, Option.some.injEq] at hfile
      rw [← hfile]
    · rw [Directory.bind_other (staged_ne hsame)] at hfile
      exact hquiet.staged other file hfile

theorem Quiet.remove (hquiet : Quiet state) (id : ℕ) (phase : Phase) :
    Quiet { state with directory := state.directory.remove (.staged id), phase } := by
  constructor
  · dsimp only
    rw [Directory.remove_other (target_ne_staged id)]
    exact hquiet.target
  · intro other file hfile
    dsimp only at hfile
    by_cases hsame : other = id
    · rw [hsame, Directory.remove_same] at hfile
      cases hfile
    · rw [Directory.remove_other (staged_ne hsame)] at hfile
      exact hquiet.staged other file hfile

theorem toUTF8_readSource {content : ByteArray} {text : String}
    (hread : readSource content = some text) : text.toUTF8 = content := by
  unfold readSource at hread
  split_ifs at hread with hlimit
  unfold String.fromUTF8? at hread
  split_ifs at hread with hvalid
  cases hread
  rfl

/-! ### Saves of other programs -/

theorem save_invariant (hinvariant : Invariant reviewed state) (content : ByteArray) :
    Invariant reviewed (save state content) := by
  have htarget : (save state content).directory .target = some (save state content).latest := by
    simp [save, Directory.bind]
  have hstaged : ∀ id, (save state content).directory (.staged id) =
      state.directory (.staged id) := by
    intro id
    simp [save, Directory.bind]
  have hquiet : Quiet state → Quiet (save state content) := by
    intro hbefore
    refine ⟨htarget, ?_⟩
    intro id file hfile
    rw [hstaged] at hfile
    exact hbefore.staged id file hfile
  have hexchanged : ∀ {id file}, Exchanged reviewed state id file →
      Exchanged reviewed (save state content) id file := by
    intro id file hbefore
    refine ⟨hbefore.displaced, ?_, ?_, ?_, fun _ => htarget⟩
    · rw [hstaged]
      exact hbefore.staged
    · intro other found hne hfound
      rw [hstaged] at hfound
      exact hbefore.others other found hne hfound
    · intro hcalm
      cases hcalm
  have hphase : (save state content).phase = state.phase := rfl
  unfold Invariant at hinvariant ⊢
  rw [hphase]
  cases hcase : state.phase with
  | exchanging id =>
    simp only [hcase] at hinvariant ⊢
    exact ⟨hquiet hinvariant.1, (hstaged id).trans hinvariant.2⟩
  | validating id =>
    simp only [hcase] at hinvariant ⊢
    obtain ⟨file, hfile⟩ := hinvariant
    exact ⟨file, hexchanged hfile⟩
  | rollingBack id error =>
    simp only [hcase] at hinvariant ⊢
    obtain ⟨file, hfile⟩ := hinvariant
    exact ⟨file, hexchanged hfile⟩
  | finalizing id =>
    simp only [hcase] at hinvariant ⊢
    obtain ⟨file, hfile, hbase⟩ := hinvariant
    exact ⟨file, hexchanged hfile, hbase⟩
  | accepted =>
    simp only [hcase] at hinvariant ⊢
    exact hinvariant
  | failed error => exact htarget
  | _ =>
    simp only [hcase] at hinvariant ⊢
    exact hquiet hinvariant

/-! ### Operations of acceptance -/

/-- A step keeps the invariant and every save. -/
def Kept (reviewed : ReviewedProposal) (before after : State) : Prop :=
  Invariant reviewed after ∧ Keeps reviewed before.directory after.directory

theorem Quiet.fail (hquiet : Quiet state) (error : AssistError) :
    Kept reviewed state (state.fail error) :=
  ⟨hquiet.target, Keeps.refl⟩

theorem Quiet.review (hquiet : Quiet state) (reply : Reply) :
    Kept reviewed state (review digest reviewed approvals state reply) := by
  unfold Assist.review
  split_ifs
  · exact hquiet.fail _
  · exact hquiet.fail _
  · cases reply.manifest with
    | error error => exact hquiet.fail error
    | ok manifest =>
      dsimp only
      split_ifs
      · exact hquiet.fail _
      · exact ⟨hquiet.goTo .inspecting, Keeps.refl⟩

theorem Quiet.create (hquiet : Quiet state) (attempts id : ℕ) (reply : Reply) :
    Kept reviewed state (create state attempts id reply) := by
  unfold Assist.create
  cases attempts with
  | zero => exact hquiet.fail _
  | succ attempts =>
    dsimp only
    split_ifs
    · exact hquiet.fail _
    · exact ⟨hquiet.goTo _, Keeps.refl⟩
    · exact ⟨hquiet.bind id _ _, Keeps.bind (hquiet.staged id) _⟩

theorem Quiet.write (hquiet : Quiet state) (id : ℕ) (reply : Reply) :
    Kept reviewed state (write reviewed state id reply) := by
  unfold Assist.write
  split_ifs
  · exact ⟨⟨hquiet.bind id _ _, Directory.bind_same _ _⟩, Keeps.bind (hquiet.staged id) _⟩
  · exact ⟨hquiet.bind id _ _, Keeps.bind (hquiet.staged id) _⟩

/-- Where the saves are all in the target, a staged file may be removed. -/
theorem Quiet.removeStaged (hquiet : Quiet state) (id : ℕ) (reply : Reply)
    (error other : AssistError) :
    Kept reviewed state (removeStaged state id reply (.failed error) (.failed other)) := by
  unfold Assist.removeStaged
  split_ifs
  · refine ⟨(hquiet.remove id (.failed error)).target, Keeps.remove ?_⟩
    intro file hfile
    exact Or.inl (hquiet.staged id file hfile)
  · exact hquiet.fail other

theorem Quiet.install (hquiet : Quiet state) {id : ℕ}
    (hcandidate : state.directory (.staged id) = some (candidateFile reviewed)) (reply : Reply) :
    Kept reviewed state (install state id reply) := by
  unfold Assist.install
  cases hexchange : state.directory.exchange (.staged id) .target with
  | none => exact ⟨hquiet.goTo _, Keeps.refl⟩
  | some after =>
    cases hreply : reply.succeeds with
    | false => exact ⟨hquiet.goTo _, Keeps.refl⟩
    | true =>
      have hne := (target_ne_staged id).symm
      obtain ⟨hfirst, hsecond, hothers⟩ := Directory.exchange_eq_some hne hexchange
      refine ⟨⟨state.latest, ?_⟩, Keeps.exchange hne hexchange⟩
      refine ⟨hquiet.target, hfirst.trans hquiet.target, ?_, ?_, ?_⟩
      · intro other found hother hfound
        change after (.staged other) = some found at hfound
        rw [hothers _ (staged_ne hother) (target_ne_staged other).symm] at hfound
        exact hquiet.staged other found hfound
      · intro _
        exact ⟨hsecond.trans hcandidate, rfl⟩
      · intro hdisturbed
        cases hdisturbed

theorem Exchanged.validate (hdigest : Function.Injective digest) {id : ℕ} {file : File}
    (hexchanged : Exchanged reviewed state id file) (reply : Reply) :
    Kept reviewed state (validate digest reviewed state id reply) := by
  have hrolls : ∀ error, Kept reviewed state (state.goTo (.rollingBack id error)) :=
    fun error => ⟨⟨file, hexchanged.goTo _⟩, Keeps.refl⟩
  unfold Assist.validate
  rw [hexchanged.staged]
  cases hreply : reply.succeeds with
  | false => exact hrolls notValidated
  | true =>
    simp only [if_true, Option.bind_some]
    cases hread : readSource file.content with
    | none => exact hrolls notValidated
    | some text =>
      dsimp only
      split_ifs with hmatches
      · -- equal digests are digests of equal contents
        have hbase := hdigest hmatches
        rw [toUTF8_readSource hread] at hbase
        exact ⟨⟨file, hexchanged.goTo _, hbase⟩, Keeps.refl⟩
      · exact hrolls staleTarget

theorem Exchanged.finalize {id : ℕ} {file : File}
    (hexchanged : Exchanged reviewed state id file)
    (hbase : file.content = reviewed.baseSource.toUTF8) (reply : Reply) :
    Kept reviewed state
      (removeStaged state id reply .accepted (.rollingBack id notFinalized)) := by
  unfold Assist.removeStaged
  split_ifs
  · refine ⟨⟨file, hexchanged.displaced, hbase⟩, Keeps.remove ?_⟩
    intro found hfound
    rw [hexchanged.staged, Option.some.injEq] at hfound
    rw [← hfound]
    exact Or.inr hbase
  · exact ⟨⟨file, hexchanged.goTo _⟩, Keeps.refl⟩

theorem Exchanged.rollback {id : ℕ} {file : File} {error : AssistError} {reply : Reply}
    (hexchanged : Exchanged reviewed state id file)
    (hundisturbed : reply.succeeds = true ↔ state.disturbed = false) :
    Kept reviewed state (rollback state id error reply) := by
  have hne := (target_ne_staged id).symm
  unfold Assist.rollback
  cases hreply : reply.succeeds with
  | false =>
    -- the saves since the exchange are in the target
    have hdisturbed : state.disturbed = true := by
      cases hcase : state.disturbed with
      | true => rfl
      | false =>
        rw [hundisturbed.mpr hcase] at hreply
        cases hreply
    have hfails : Kept reviewed state (state.fail notRolledBack) :=
      ⟨hexchanged.saved hdisturbed, Keeps.refl⟩
    cases state.directory.exchange (.staged id) .target <;> exact hfails
  | true =>
    obtain ⟨hcandidate, hlatest⟩ := hexchanged.calm (hundisturbed.mp hreply)
    obtain ⟨after, hexchange⟩ : ∃ after,
        state.directory.exchange (.staged id) .target = some after := by
      unfold Directory.exchange
      rw [hexchanged.staged, hcandidate]
      exact ⟨_, rfl⟩
    obtain ⟨hfirst, hsecond, hothers⟩ := Directory.exchange_eq_some hne hexchange
    rw [hexchange]
    refine ⟨⟨?_, ?_⟩, Keeps.exchange hne hexchange⟩
    · dsimp only
      rw [hsecond, hexchanged.staged, hlatest]
    · intro other found hfound
      by_cases hsame : other = id
      · rw [hsame] at hfound
        dsimp only at hfound
        rw [hfirst, hcandidate, Option.some.injEq] at hfound
        rw [← hfound]
        rfl
      · dsimp only at hfound
        rw [hothers _ (staged_ne hsame) (target_ne_staged other).symm] at hfound
        exact hexchanged.others other found hsame hfound

theorem act_kept (hdigest : Function.Injective digest) (hinvariant : Invariant reviewed state)
    {reply : Reply} (hundisturbed : Undisturbed state (.act reply)) :
    Kept reviewed state (act digest reviewed approvals firstId state reply) := by
  unfold Invariant at hinvariant
  unfold act
  cases hphase : state.phase with
  | reviewing =>
    simp only [hphase] at hinvariant ⊢
    exact hinvariant.review reply
  | inspecting =>
    simp only [hphase] at hinvariant ⊢
    split_ifs
    · exact ⟨hinvariant.goTo _, Keeps.refl⟩
    · exact hinvariant.fail _
  | linking =>
    simp only [hphase] at hinvariant ⊢
    split_ifs
    · exact hinvariant.fail _
    · exact ⟨hinvariant.goTo _, Keeps.refl⟩
  | creating attempts id =>
    simp only [hphase] at hinvariant ⊢
    exact hinvariant.create attempts id reply
  | permitting id =>
    simp only [hphase] at hinvariant ⊢
    split_ifs
    · exact ⟨hinvariant.goTo _, Keeps.refl⟩
    · exact hinvariant.fail _
  | writing id =>
    simp only [hphase] at hinvariant ⊢
    exact hinvariant.write id reply
  | discarding id error =>
    simp only [hphase] at hinvariant ⊢
    exact hinvariant.removeStaged id reply error error
  | exchanging id =>
    simp only [hphase] at hinvariant ⊢
    exact hinvariant.1.install hinvariant.2 reply
  | validating id =>
    simp only [hphase] at hinvariant ⊢
    obtain ⟨file, hexchanged⟩ := hinvariant
    exact hexchanged.validate hdigest reply
  | finalizing id =>
    simp only [hphase] at hinvariant ⊢
    obtain ⟨file, hexchanged, hbase⟩ := hinvariant
    exact hexchanged.finalize hbase reply
  | rollingBack id error =>
    simp only [hphase] at hinvariant ⊢
    obtain ⟨file, hexchanged⟩ := hinvariant
    exact hexchanged.rollback (hundisturbed id error reply hphase rfl)
  | removing id error =>
    simp only [hphase] at hinvariant ⊢
    exact hinvariant.removeStaged id reply error notRemoved
  | accepted =>
    refine ⟨?_, Keeps.refl⟩
    unfold Invariant
    rw [hphase]
    simpa only [hphase] using hinvariant
  | failed error =>
    refine ⟨?_, Keeps.refl⟩
    unfold Invariant
    rw [hphase]
    simpa only [hphase] using hinvariant

theorem Invariant.reports (hinvariant : Invariant reviewed state) : Reports reviewed state := by
  unfold Invariant at hinvariant
  constructor
  · intro haccepted
    simpa only [haccepted] using hinvariant
  · intro error hfailed
    simpa only [hfailed] using hinvariant

end Invariant

/-! ## Whole runs -/

section Runs

variable {digest : ByteArray → String} {reviewed : ReviewedProposal}
  {approvals : Finset PermissionKey} {firstId : ℕ}

theorem run_concat (state : State) (events : List Event) (event : Event) :
    run digest reviewed approvals firstId state (events ++ [event]) =
      step digest reviewed approvals firstId
        (run digest reviewed approvals firstId state events) event :=
  List.foldl_concat ..

theorem start_invariant (others : ℕ → Option ByteArray) :
    Invariant reviewed (start reviewed others) := by
  refine ⟨rfl, ?_⟩
  intro id file hfile
  obtain ⟨content, -, rfl⟩ := Option.map_eq_some_iff.mp hfile
  rfl

/-- Every step of the run is undisturbed. -/
def Calm (digest : ByteArray → String) (reviewed : ReviewedProposal)
    (approvals : Finset PermissionKey) (firstId : ℕ) (initial : State) (events : List Event) :
    Prop :=
  History.Throughout
    (fun before event => Undisturbed (run digest reviewed approvals firstId initial before) event)
    events

theorem calm_cons {initial : State} {event : Event} {rest : List Event}
    (hevent : Undisturbed initial event)
    (hrest : Calm digest reviewed approvals firstId
      (step digest reviewed approvals firstId initial event) rest) :
    Calm digest reviewed approvals firstId initial (event :: rest) := by
  intro before other after hsplit
  cases before with
  | nil =>
    rw [List.nil_append, List.cons.injEq] at hsplit
    rw [← hsplit.1]
    exact hevent
  | cons first more =>
    rw [List.cons_append, List.cons.injEq] at hsplit
    rw [← hsplit.1]
    exact hrest more other after hsplit.2

/-- Elsewhere than where the exchange is undone, nothing is asked. -/
theorem undisturbed_of_phase {state : State} {event : Event}
    (hphase : ∀ id error, state.phase ≠ .rollingBack id error) : Undisturbed state event :=
  fun id error _ hrolls _ => absurd hrolls (hphase id error)

theorem run_invariant (hdigest : Function.Injective digest) {initial : State}
    (hinitial : Invariant reviewed initial) {events : List Event}
    (hcalm : Calm digest reviewed approvals firstId initial events) :
    Invariant reviewed (run digest reviewed approvals firstId initial events) := by
  -- the induction is on the end of the run, where the last step is
  induction events using List.reverseRecOn with
  | nil => exact hinitial
  | append_singleton events event ih =>
    have hbefore : Calm digest reviewed approvals firstId initial events := by
      intro before other after hsplit
      exact hcalm before other (after ++ [event]) (by rw [hsplit]; simp)
    have hlast := hcalm events event [] rfl
    rw [run_concat]
    cases event with
    | save content => exact save_invariant (ih hbefore) content
    | act reply => exact (act_kept hdigest (ih hbefore) hlast).1

end Runs

/-- In every run in which the exchange is undone exactly if no other program has saved the
target since, an accepted candidate has displaced the reviewed source, after an error the
target holds what another program saved last (or the reviewed source), and no step of
acceptance loses a file that another program saved. -/
theorem acceptance_keeps_saves (digest : ByteArray → String)
    (hdigest : Function.Injective digest) (reviewed : ReviewedProposal)
    (approvals : Finset PermissionKey) (firstId : ℕ) (others : ℕ → Option ByteArray)
    (events : List Event)
    (hcalm : Calm digest reviewed approvals firstId (start reviewed others) events) :
    Reports reviewed
        (run digest reviewed approvals firstId (start reviewed others) events) ∧
      ∀ before reply after, events = before ++ .act reply :: after →
        Keeps reviewed
          (run digest reviewed approvals firstId (start reviewed others) before).directory
          (run digest reviewed approvals firstId (start reviewed others)
            (before ++ [.act reply])).directory := by
  refine ⟨(run_invariant hdigest (start_invariant others) hcalm).reports, ?_⟩
  intro before reply after hsplit
  have hbefore : Calm digest reviewed approvals firstId (start reviewed others) before := by
    intro first event last hfirst
    exact hcalm first event (last ++ .act reply :: after) (by rw [hsplit, hfirst]; simp)
  rw [run_concat]
  exact (act_kept hdigest (run_invariant hdigest (start_invariant others) hbefore)
    (hcalm before _ after hsplit)).2

/-! ### A save between the exchange and its undoing -/

/-- The bytes as text, in place of a digest. -/
def plainDigest (bytes : ByteArray) : String :=
  String.ofList (bytes.data.toList.map fun byte => Char.ofNat byte.toNat)

theorem toNat_ofNat_byte : ∀ code < 256, (Char.ofNat code).toNat = code := by
  decide +kernel

theorem plainDigest_injective : Function.Injective plainDigest := by
  intro first second hsame
  have hlists : first.data.toList.map (fun byte => Char.ofNat byte.toNat) =
      second.data.toList.map fun byte => Char.ofNat byte.toNat := String.ofList_injective hsame
  have hbytes : Function.Injective fun byte : UInt8 => Char.ofNat byte.toNat := by
    intro left right heq
    have hcodes := congrArg Char.toNat heq
    dsimp only at hcodes
    rw [toNat_ofNat_byte _ left.toNat_lt, toNat_ofNat_byte _ right.toNat_lt] at hcodes
    exact UInt8.toNat_inj.mp hcodes
  exact ByteArray.ext (Array.toList_inj.mp (List.map_injective_iff.mpr hbytes hlists))

/-- `let a = 1;` is to become `let a = 2;`. -/
def sampleProposal : ReviewedProposal where
  approvalRequired := ∅
  missingAfter := []
  manifestDigest := plainDigest "name = a".toUTF8
  baseSource := "let a = 1;"
  candidate := "let a = 2;"

/-- The operation succeeds. -/
def succeeded : Reply := ⟨true, .ok "name = a", false, ByteArray.empty⟩

/-- Acceptance up to the exchange, with a save before it. -/
def exchangeEvents : List Event :=
  [.act succeeded, .act succeeded, .act succeeded, .act succeeded, .act succeeded, .act succeeded,
    .save "let a = 3;".toUTF8, .act succeeded]

/-- The run of the sample proposal. -/
def sampleRun (events : List Event) : State :=
  run plainDigest sampleProposal ∅ 0 (start sampleProposal fun _ => none) events

/-- Acceptance reads what it displaced, exchanges it back and removes the candidate. -/
def undoEvents : List Event := [.act succeeded, .act succeeded, .act succeeded]

theorem acceptance_keeps_saves_sample :
    (sampleRun (exchangeEvents ++ undoEvents)).phase = .failed staleTarget ∧
      (sampleRun (exchangeEvents ++ undoEvents)).directory .target =
        some ⟨"let a = 3;".toUTF8, some 0⟩ := by
  have hcalm : Calm plainDigest sampleProposal ∅ 0 (start sampleProposal fun _ => none)
      (exchangeEvents ++ undoEvents) := by
    iterate 9
      refine calm_cons (undisturbed_of_phase fun _ _ hrolls => Phase.noConfusion hrolls) ?_
    refine calm_cons ?_ ?_
    · intro id error reply _ hact
      cases hact
      exact ⟨fun _ => rfl, fun _ => rfl⟩
    · refine calm_cons (undisturbed_of_phase fun _ _ hrolls => Phase.noConfusion hrolls) ?_
      exact History.throughout_nil
  have hfailed : (sampleRun (exchangeEvents ++ undoEvents)).phase = .failed staleTarget := by
    decide +kernel
  have hreports := (acceptance_keeps_saves plainDigest plainDigest_injective sampleProposal ∅ 0
    (fun _ => none) _ hcalm).1
  exact ⟨hfailed, hreports.2 staleTarget hfailed⟩

/-- A save between the exchange and its undoing. -/
def disturbedEvents : List Event :=
  exchangeEvents ++ [.save "let a = 4;".toUTF8, .act succeeded, .act succeeded]

/-- Such a save is lost: the undoing puts the earlier save back and removes the later one. -/
theorem save_lost_by_rollback :
    (sampleRun (disturbedEvents ++ [.act succeeded])).phase = .failed staleTarget ∧
      (sampleRun (disturbedEvents ++ [.act succeeded])).latest =
        ⟨"let a = 4;".toUTF8, some 1⟩ ∧
      (sampleRun (disturbedEvents ++ [.act succeeded])).directory .target =
        some ⟨"let a = 3;".toUTF8, some 0⟩ ∧
      ¬ Reports sampleProposal (sampleRun (disturbedEvents ++ [.act succeeded])) ∧
      ¬ Keeps sampleProposal (sampleRun disturbedEvents).directory
        (sampleRun (disturbedEvents ++ [.act succeeded])).directory := by
  have hfailed : (sampleRun (disturbedEvents ++ [.act succeeded])).phase = .failed staleTarget := by
    decide +kernel
  have htarget : (sampleRun (disturbedEvents ++ [.act succeeded])).directory .target =
      some ⟨"let a = 3;".toUTF8, some 0⟩ := rfl
  have hfile : (⟨"let a = 3;".toUTF8, some 0⟩ : File) ≠ ⟨"let a = 4;".toUTF8, some 1⟩ := by
    intro heq
    cases (File.mk.inj heq).2
  refine ⟨hfailed, rfl, htarget, ?_, ?_⟩
  · intro hreports
    have hlatest := hreports.2 staleTarget hfailed
    rw [htarget, Option.some.injEq] at hlatest
    exact hfile hlatest
  · intro hkeeps
    obtain ⟨name, hname⟩ := hkeeps ⟨"let a = 4;".toUTF8, some 1⟩ (by simp) (by decide +kernel)
      ⟨.staged 0, rfl⟩
    cases name with
    | target =>
      rw [htarget, Option.some.injEq] at hname
      exact hfile hname
    | staged id =>
      cases id with
      | zero => cases hname
      | succ id => cases hname

end Krit.Assist
