import LiterateCheck.Proofs.Disk.Agreement
import LiterateCheck.Proofs.Disk.Writing

/-!
# Runs from related disks

`Alike R run run'` says that from disks that `R` relates both runs end in the same way, with the
same value or the same error, and with disks that `R` relates again. Each way to build a run has its
lemma. What operations do is the same on disks that agree (`OnDisk.Uniform`), so with `Disk.Agrees`
for `R` a run is alike to itself.
-/

namespace LiterateCheck

/-! ## Operations on disks that agree -/

namespace OnDisk

variable {α : Type}

/-- On disks that agree the action ends in the same way, with disks that agree. -/
def Uniform (action : OnDisk α) : Prop :=
  ∀ disk disk', disk.Agrees disk' → (action.run.run disk).1 = (action.run.run disk').1 ∧
    (action.run.run disk).2.Agrees (action.run.run disk').2

theorem Uniform.gives {action : OnDisk α} (h : Uniform action) {disk disk' after : Disk} {a : α}
    (hagrees : disk.Agrees disk') (hgives : Gives action disk a after) :
    ∃ after', Gives action disk' a after' ∧ after.Agrees after' := by
  obtain ⟨hresult, hafter⟩ := h disk disk' hagrees
  unfold Gives at hgives ⊢
  rcases hrun' : action.run.run disk' with ⟨result, after'⟩
  rw [hgives, hrun'] at hresult hafter
  obtain rfl := hresult
  exact ⟨after', rfl, hafter⟩

theorem uniform_change {step : Disk → Except SystemError Disk}
    (h : ∀ disk disk', disk.Agrees disk' → Disk.AgreesResult (step disk) (step disk')) :
    Uniform (change step) := by
  intro disk disk' hagrees
  rw [run_change, run_change]
  rcases h disk disk' hagrees with ⟨made, made', hmade, hmade', hresult⟩ | ⟨reason, hfail, hfail'⟩
  · rw [hmade, hmade']
    exact ⟨rfl, hresult⟩
  · rw [hfail, hfail']
    exact ⟨rfl, hagrees⟩

theorem run_tryCatch (action : OnDisk α) (handler : SystemError → OnDisk α) (disk : Disk) :
    (tryCatch action handler).run.run disk =
      match action.run.run disk with
      | (.ok a, after) => (.ok a, after)
      | (.error reason, after) => (handler reason).run.run after := by
  show (ExceptT.tryCatch action handler).run.run disk = _
  unfold ExceptT.tryCatch
  rw [ExceptT.run_mk, StateT.run_bind]
  rcases hrun : action.run.run disk with ⟨reason | a, after⟩
  · rw [show StateT.run action disk = (.error reason, after) from hrun]
    rfl
  · rw [show StateT.run action disk = (.ok a, after) from hrun]
    rfl

theorem Uniform.tryCatch {action : OnDisk α} (h : Uniform action)
    {handler : SystemError → OnDisk α} (hhandler : ∀ reason, Uniform (handler reason)) :
    Uniform (tryCatch action handler) := by
  intro disk disk' hagrees
  obtain ⟨hresult, hafter⟩ := h disk disk' hagrees
  rw [run_tryCatch, run_tryCatch]
  rcases hrun : action.run.run disk with ⟨reason | a, after⟩ <;>
    rcases hrun' : action.run.run disk' with ⟨reason' | a', after'⟩ <;>
    rw [hrun, hrun'] at hresult hafter <;> cases hresult
  · exact hhandler reason after after' hafter
  · exact ⟨rfl, hafter⟩

end OnDisk

namespace Disk

theorem uniform_makeDirectories (cwd : Location) (fuel : Nat) (path : Path) :
    OnDisk.Uniform (makeDirectories cwd fuel path) := by
  induction fuel generalizing path with
  | zero => exact fun _ _ hagrees => ⟨rfl, hagrees⟩
  | succ fuel ih =>
    intro disk disk' hagrees
    rw [run_makeDirectories, run_makeDirectories, ← hagrees.isDirectory_eq]
    split
    · exact ⟨rfl, hagrees⟩
    rcases agreesResult_makeDirectory hagrees cwd path with
      ⟨made, made', hmade, hmade', hresult⟩ | ⟨reason, hfail, hfail'⟩
    · rw [hmade, hmade']
      exact ⟨rfl, hresult⟩
    rw [hfail, hfail']
    dsimp only
    split
    · cases path.parent? with
      | none => exact ⟨rfl, hagrees⟩
      | some parent =>
        obtain ⟨hparent, hmiddle⟩ := ih parent disk disk' hagrees
        dsimp only
        rcases hrun : (makeDirectories cwd fuel parent).run.run disk with ⟨reason | ⟨⟩, middle⟩ <;>
          rcases hrun' : (makeDirectories cwd fuel parent).run.run disk' with
            ⟨reason' | ⟨⟩, middle'⟩ <;>
          rw [hrun, hrun'] at hparent hmiddle <;> cases hparent
        · exact ⟨rfl, hmiddle⟩
        dsimp only at hmiddle ⊢
        rw [← hmiddle.isDirectory_eq]
        rcases agreesResult_makeDirectory hmiddle cwd path with
          ⟨made, made', hmade, hmade', hresult⟩ | ⟨reason, hfail, hfail'⟩
        · rw [hmade, hmade']
          exact ⟨rfl, hresult⟩
        · rw [hfail, hfail']
          dsimp only
          split <;> exact ⟨rfl, hmiddle⟩
    · split <;> exact ⟨rfl, hagrees⟩

theorem uniform_makeAll (cwd : Location) (path : Path) : OnDisk.Uniform (makeAll cwd path) := by
  unfold makeAll
  exact uniform_makeDirectories cwd _ path

theorem uniform_removeAll (cwd : Location) (path : Path) : OnDisk.Uniform (removeAll cwd path) := by
  intro disk disk' hagrees
  rw [run_removeAll, run_removeAll, ← hagrees.find_eq]
  rcases disk.find cwd false path path.steps with
    reason | ⟨l, ⟨content, executable⟩ | _ | target⟩ | ⟨directory, name⟩
  · exact ⟨rfl, hagrees⟩
  · exact ⟨rfl, hagrees⟩
  · have hbelow : (disk.removeBelow l).Agrees (disk'.removeBelow l) := hagrees.keep _
    dsimp only
    rw [← hbelow.walk_eq]
    rcases (disk.removeBelow l).walk false maxLinks (start cwd path) path.names with
      reason | ⟨l', ⟨content, executable⟩ | _ | target⟩ | ⟨directory, name⟩
    · exact ⟨rfl, hbelow⟩
    · dsimp only
      split
      · exact ⟨rfl, hbelow⟩
      · exact ⟨rfl, hbelow⟩
      · exact ⟨rfl, hbelow.keep _⟩
    · dsimp only
      split
      · exact ⟨rfl, hbelow⟩
      · exact ⟨rfl, hbelow⟩
      · exact ⟨rfl, hbelow.keep _⟩
    · exact ⟨rfl, hbelow⟩
    · exact ⟨rfl, hbelow⟩
  · exact ⟨rfl, hagrees.keep _⟩
  · exact ⟨rfl, hagrees⟩

end Disk

/-! ## Runs -/

namespace Run

variable {α β : Type} {R : Disk → Disk → Prop}

/-- From related disks both runs end in the same way, with related disks. -/
def Alike (R : Disk → Disk → Prop) (run run' : Run α) : Prop :=
  ∀ before before', R before.disk before'.disk →
    (run.run.run before).1 = (run'.run.run before').1 ∧
      R (run.run.run before).2.disk (run'.run.run before').2.disk

theorem Alike.gives {run run' : Run α} (h : Alike R run run') {before before' after : World}
    (hbefore : R before.disk before'.disk) {a : α} (hgives : Gives run before a after) :
    ∃ after', Gives run' before' a after' ∧ R after.disk after'.disk := by
  obtain ⟨hresult, hafter⟩ := h before before' hbefore
  unfold Gives at hgives ⊢
  rcases hrun' : run'.run.run before' with ⟨result, after'⟩
  rw [hgives, hrun'] at hresult hafter
  obtain rfl := hresult
  exact ⟨after', rfl, hafter⟩

theorem alike_pure (a : α) : Alike R (pure a) (pure a) :=
  fun _ _ h => ⟨rfl, h⟩

theorem alike_notify (notices : List Notice) : Alike R (notify notices) (notify notices) :=
  fun _ _ h => ⟨rfl, h⟩

theorem alike_throw (error : CheckError) : Alike R (throw error : Run α) (throw error) :=
  fun _ _ h => ⟨rfl, h⟩

theorem alike_ofExcept (result : Except CheckError α) :
    Alike R (ofExcept result) (ofExcept result) := by
  cases result with
  | ok a => exact alike_pure a
  | error error => exact alike_throw error

theorem alike_onDisk {fault : SystemError → CheckError} {action : OnDisk α}
    (h : OnDisk.Uniform action) :
    Alike Disk.Agrees (onDisk fault action) (onDisk fault action) := by
  intro before before' hbefore
  obtain ⟨hresult, hafter⟩ := h before.disk before'.disk hbefore
  rw [run_onDisk, run_onDisk]
  exact ⟨congrArg (Except.mapError fault) hresult, hafter⟩

theorem Alike.bind {run run' : Run α} {next next' : α → Run β} (h : Alike R run run')
    (hnext : ∀ a, Alike R (next a) (next' a)) : Alike R (run >>= next) (run' >>= next') := by
  intro before before' hbefore
  obtain ⟨hresult, hmiddle⟩ := h before before' hbefore
  rw [run_bind, run_bind]
  rcases hrun : run.run.run before with ⟨error | a, middle⟩ <;>
    rcases hrun' : run'.run.run before' with ⟨error' | a', middle'⟩ <;>
    rw [hrun, hrun'] at hresult hmiddle <;> cases hresult
  · exact ⟨rfl, hmiddle⟩
  · exact hnext a middle middle' hmiddle

theorem alike_disk_bind {next next' : Disk → Run β}
    (hnext : ∀ disk disk', R disk disk' → Alike R (next disk) (next' disk')) :
    Alike R (disk >>= next) (disk >>= next') := by
  intro before before' hbefore
  rw [run_bind_of_gives (gives_disk.2 ⟨rfl, rfl⟩), run_bind_of_gives (gives_disk.2 ⟨rfl, rfl⟩)]
  exact hnext _ _ hbefore before before' hbefore

theorem alike_mapM {f f' : α → Run β} {items : List α}
    (h : ∀ item ∈ items, Alike R (f item) (f' item)) :
    Alike R (items.mapM f) (items.mapM f') := by
  induction items with
  | nil =>
    rw [List.mapM_nil, List.mapM_nil]
    exact alike_pure []
  | cons item others ih =>
    obtain ⟨hitem, hothers⟩ := List.forall_mem_cons.1 h
    rw [List.mapM_cons, List.mapM_cons]
    exact hitem.bind fun b => (ih hothers).bind fun bs => alike_pure _

theorem alike_forM {f f' : α → Run PUnit} {items : List α}
    (h : ∀ item ∈ items, Alike R (f item) (f' item)) :
    Alike R (items.forM f) (items.forM f') := by
  induction items with
  | nil => exact alike_pure PUnit.unit
  | cons item others ih =>
    obtain ⟨hitem, hothers⟩ := List.forall_mem_cons.1 h
    exact hitem.bind fun _ => ih hothers

end Run

end LiterateCheck
