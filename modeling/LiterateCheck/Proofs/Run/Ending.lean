import LiterateCheck.Proofs.Run.Success

/-!
# Runs however they end

What a run wrote before it failed stays. `Ends R P run` says of all its endings at once that `R`
relates the disks before and after, and that a failure is one of the errors of `P`. Each way to
build a run has its lemma, for a relation that is reflexive and transitive; a step that follows
another is only asked about the values that the first can give.
-/

namespace LiterateCheck.Run

variable {α β : Type}

/-- Whether a run gives a value or fails, its disks are related, and only with some errors does it
fail. -/
structure Ends (R : Disk → Disk → Prop) (P : CheckError → Prop) (run : Run α) : Prop where
  related (before : World) : R before.disk (run.run.run before).2.disk
  fault {before : World} {error : CheckError} : (run.run.run before).1 = .error error → P error

variable {R : Disk → Disk → Prop} {P : CheckError → Prop}

theorem Ends.gives {run : Run α} (h : Ends R P run) {before after : World} {a : α}
    (hgives : Gives run before a after) : R before.disk after.disk := by
  have hrelated := h.related before
  rwa [show run.run.run before = (.ok a, after) from hgives] at hrelated

theorem Ends.mono {R' : Disk → Disk → Prop} {P' : CheckError → Prop} {run : Run α}
    (h : Ends R P run) (hR : ∀ before after, R before after → R' before after)
    (hP : ∀ error, P error → P' error) : Ends R' P' run :=
  ⟨fun before => hR _ _ (h.related before), fun hfault => hP _ (h.fault hfault)⟩

section Reflexive

variable (refl : ∀ disk, R disk disk)

include refl

theorem ends_pure (a : α) : Ends R P (pure a) where
  related before := refl before.disk
  fault h := by cases h

theorem ends_notify (notices : List Notice) : Ends R P (notify notices) where
  related before := refl before.disk
  fault h := by cases h

theorem ends_disk : Ends R P disk where
  related before := refl before.disk
  fault h := by cases h

theorem ends_throw {error : CheckError} (h : P error) : Ends R P (throw error : Run α) where
  related before := refl before.disk
  fault hthrow := Except.error.inj hthrow ▸ h

theorem ends_ofExcept {result : Except CheckError α}
    (h : ∀ error, result = .error error → P error) :
    Ends R P (ofExcept result) := by
  cases result with
  | ok a => exact ends_pure refl a
  | error error => exact ends_throw refl (h error rfl)

end Reflexive

theorem ends_onDisk {fault : SystemError → CheckError} {action : OnDisk α}
    (hrelated : ∀ disk, R disk (action.run.run disk).2) (hfault : ∀ reason, P (fault reason)) :
    Ends R P (onDisk fault action) where
  related before := by
    rw [run_onDisk]
    exact hrelated before.disk
  fault {before error} h := by
    rw [run_onDisk] at h
    generalize (action.run.run before.disk).1 = result at h
    cases result with
    | error reason =>
      cases h
      exact hfault reason
    | ok a => cases h

section Transitive

variable (trans : ∀ a b c, R a b → R b c → R a c)

include trans

theorem Ends.bind {run : Run α} {next : α → Run β} (hrun : Ends R P run)
    (hnext : ∀ a before after, Gives run before a after → Ends R P (next a)) :
    Ends R P (run >>= next) := by
  refine ⟨fun before => ?_, fun {before error} h => ?_⟩
  · have hfirst := hrun.related before
    rw [run_bind]
    rcases hgives : run.run.run before with ⟨error | a, middle⟩
    · rwa [hgives] at hfirst
    · rw [hgives] at hfirst
      exact trans _ _ _ hfirst ((hnext a before middle hgives).related middle)
  · rw [run_bind] at h
    rcases hgives : run.run.run before with ⟨error' | a, middle⟩
    · rw [hgives] at h
      cases h
      exact hrun.fault (congrArg Prod.fst hgives)
    · rw [hgives] at h
      exact (hnext a before middle hgives).fault h

variable (refl : ∀ disk, R disk disk)

include refl

theorem ends_mapM {f : α → Run β} {items : List α} (h : ∀ item ∈ items, Ends R P (f item)) :
    Ends R P (items.mapM f) := by
  induction items with
  | nil =>
    rw [List.mapM_nil]
    exact ends_pure refl []
  | cons item others ih =>
    obtain ⟨hitem, hothers⟩ := List.forall_mem_cons.1 h
    rw [List.mapM_cons]
    exact hitem.bind trans fun b _ _ _ => (ih hothers).bind trans fun bs _ _ _ => ends_pure refl _

theorem ends_forM {f : α → Run PUnit} {items : List α} (h : ∀ item ∈ items, Ends R P (f item)) :
    Ends R P (items.forM f) := by
  induction items with
  | nil => exact ends_pure refl PUnit.unit
  | cons item others ih =>
    obtain ⟨hitem, hothers⟩ := List.forall_mem_cons.1 h
    exact hitem.bind trans fun _ _ _ _ => ih hothers

end Transitive

/-! ## Runs that only read -/

/-- A run that leaves the disk as it is. -/
def Reads (run : Run α) : Prop :=
  Ends (· = ·) (fun _ => True) run

theorem reads_pure (a : α) : Reads (pure a) :=
  ends_pure (fun _ => rfl) a

theorem reads_notify (notices : List Notice) : Reads (notify notices) :=
  ends_notify (fun _ => rfl) notices

theorem reads_disk : Reads disk :=
  ends_disk fun _ => rfl

theorem reads_ofExcept (result : Except CheckError α) : Reads (ofExcept result) :=
  ends_ofExcept (fun _ => rfl) fun _ _ => trivial

theorem Reads.bind {run : Run α} {next : α → Run β} (hrun : Reads run)
    (hnext : ∀ a, Reads (next a)) : Reads (run >>= next) :=
  Ends.bind (R := Eq) (fun _ _ _ => Eq.trans) hrun fun a _ _ _ => hnext a

theorem reads_mapM {f : α → Run β} {items : List α} (h : ∀ item, Reads (f item)) :
    Reads (items.mapM f) :=
  ends_mapM (R := Eq) (fun _ _ _ => Eq.trans) (fun _ => rfl) fun item _ => h item

end LiterateCheck.Run
