import NotePublisher.Disk.Action

namespace NotePublisher

/-!
# Temporary files

A temporary file is created empty, written and given permission bits. A device
may refuse any of these steps. A file that cannot be written in full is removed
again (`Disk.stageFile_cases`), and so is one whose bits cannot be set
(`Disk.setStagedMode_cases`).
-/

namespace Disk

section Discarding

variable {action : DiskAction Unit} {disk changed : Disk} {cause : DiskError}

/-- Nothing is removed when an action is done. -/
theorem orDiscard_of_ok
    (done : action disk = .ok () changed) :
    orDiscard action disk = .ok () changed := by
  simp only [orDiscard, done]

/-- When an action is refused, the temporary file on top of the others is removed. -/
theorem orDiscard_of_error
    {staged : StagedFile}
    (refused : action disk = .error cause { changed with staged := staged :: changed.staged }) :
    orDiscard action disk = .error cause changed := by
  simp only [orDiscard, refused, discardStaged, List.tail_cons]

end Discarding

variable {folder : Route} {content : ByteArray} {disk : Disk} {location : Location}

/-- Creating a temporary file fails and changes nothing, or adds an empty one. -/
theorem createStaged_cases
    (folder : Route)
    (disk : Disk) :
    (∃ cause, createStaged folder disk = .error cause disk) ∨
      ∃ location, createStaged folder disk =
        .ok () { disk with staged := ⟨location, ⟨0o600, ⟨#[]⟩⟩⟩ :: disk.staged } := by
  rw [createStaged]
  rcases disk.resolve folder with cause | location
  · exact .inl ⟨cause, rfl⟩
  · simp only
    rcases disk.look location with _ | leaf | _
    · exact .inl ⟨_, rfl⟩
    · exact .inl ⟨_, rfl⟩
    · exact .inr ⟨location, rfl⟩

/-- The bytes written behind none are all that the temporary file has. -/
private theorem writeStaged_created
    (location : Location)
    (content : ByteArray)
    (disk : Disk) :
    (do writeStaged none content; unlessRefused none (pure ()) : DiskAction Unit)
        { disk with staged := ⟨location, ⟨0o600, ⟨#[]⟩⟩⟩ :: disk.staged } =
      .ok () { disk with staged := ⟨location, ⟨0o600, content⟩⟩ :: disk.staged } := by
  have nothingBefore : (⟨#[]⟩ : ByteArray) ++ content = content := ByteArray.empty_append
  simp only [writeStaged, changeStaged, unlessRefused, bind, EStateM.bind, pure, EStateM.pure,
    nothingBefore]

/-- A temporary file that is created is written in full where the device refuses nothing. -/
theorem stageFile_of_created
    (created : createStaged folder disk =
      .ok () { disk with staged := ⟨location, ⟨0o600, ⟨#[]⟩⟩⟩ :: disk.staged }) :
    stageFile {} folder content disk =
      .ok () { disk with staged := ⟨location, ⟨0o600, content⟩⟩ :: disk.staged } := by
  simp only [stageFile, bind, EStateM.bind, unlessRefused, created]
  exact orDiscard_of_ok (writeStaged_created location content disk)

/-- Either a temporary file is written in full or none is left. -/
theorem stageFile_cases
    (faults : StoreFaults)
    (folder : Route)
    (content : ByteArray)
    (disk : Disk) :
    (∃ cause, stageFile faults folder content disk = .error cause disk) ∨
      ∃ staged : StagedFile, stageFile faults folder content disk =
          .ok () { disk with staged := staged :: disk.staged } ∧
        staged.file = ⟨0o600, content⟩ := by
  simp only [stageFile, bind, EStateM.bind]
  cases faults.creating with
  | some cause => exact .inl ⟨cause, rfl⟩
  | none =>
      rw [unlessRefused]
      rcases createStaged_cases folder disk with ⟨cause, refused⟩ | ⟨location, created⟩
      · rw [refused]
        exact .inl ⟨cause, rfl⟩
      rw [created]
      cases faults.writing with
      | some fault => exact .inl ⟨fault.2, orDiscard_of_error rfl⟩
      | none =>
          cases faults.syncing with
          | some cause => exact .inl ⟨cause, orDiscard_of_error rfl⟩
          | none =>
              exact .inr ⟨⟨location, ⟨0o600, content⟩⟩,
                orDiscard_of_ok (writeStaged_created location content disk), rfl⟩

/-- Either a temporary file is given its bits or it is removed. -/
theorem setStagedMode_cases
    (fault : Option DiskError)
    (mode : Nat)
    (disk : Disk)
    (staged : StagedFile) :
    (∃ cause, orDiscard (unlessRefused fault (setStagedMode mode))
        { disk with staged := staged :: disk.staged } = .error cause disk) ∨
      orDiscard (unlessRefused fault (setStagedMode mode))
        { disk with staged := staged :: disk.staged } =
          .ok () { disk with
            staged := { staged with file := { staged.file with mode := mode } } ::
              disk.staged } := by
  cases fault with
  | some cause => exact .inl ⟨cause, orDiscard_of_error rfl⟩
  | none => exact .inr (orDiscard_of_ok rfl)

end Disk

end NotePublisher
