import NotePublisher.Disk.Action
import NotePublisher.Vault.Event

namespace NotePublisher

/-!
# Sessions

Work on a vault changes a disk and notes events. An operation that fails keeps
what it changed and noted before it failed.
-/

/-- The disk and the events noted so far, in order. -/
structure Session where
  disk : Disk
  events : List Event := []
  deriving DecidableEq

instance decidableEqResult {ε σ α : Type} [DecidableEq ε] [DecidableEq σ] [DecidableEq α] :
    DecidableEq (EStateM.Result ε σ α)
  | .ok value state, .ok other changed =>
      decidable_of_iff (value = other ∧ state = changed) (by simp)
  | .error error state, .error other changed =>
      decidable_of_iff (error = other ∧ state = changed) (by simp)
  | .ok _ _, .error _ _ => isFalse (by simp)
  | .error _ _, .ok _ _ => isFalse (by simp)

/-- An operation on a vault. -/
abbrev VaultAction (α : Type) :=
  EStateM VaultError Session α

namespace VaultAction

/-- Note an event. -/
def note (event : Event) : VaultAction Unit := fun session =>
  .ok () { session with events := session.events ++ [event] }

/-- Note events in order. -/
def noteAll (events : List Event) : VaultAction Unit := fun session =>
  .ok () { session with events := session.events ++ events }

/-- The disk as it is. -/
def disk : VaultAction Disk := fun session =>
  .ok session.disk session

/-- Change the disk; `blame` says what a refusal means. -/
def onDisk
    {α : Type}
    (blame : DiskError → VaultError)
    (action : DiskAction α) :
    VaultAction α := fun session =>
  match action session.disk with
  | .ok value changed => .ok value { session with disk := changed }
  | .error cause changed => .error (blame cause) { session with disk := changed }

/-- Look at the disk; `blame` says what a refusal means. -/
def query
    {α : Type}
    (blame : DiskError → VaultError)
    (answer : Disk → Except DiskError α) :
    VaultAction α := fun session =>
  match answer session.disk with
  | .ok value => .ok value session
  | .error cause => .error (blame cause) session

end VaultAction

end NotePublisher
