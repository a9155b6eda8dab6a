import LiterateCheck.Run

/-!
# Runs that succeed

`Gives run before a after` says that a run started in the world `before` gives `a` and ends in the
world `after`. One lemma for each way to build a run reads its success as the success of its parts,
so that no later proof opens the monad.
-/

namespace LiterateCheck

theorem bind_eq_ok_iff {ε α β : Type} {first : Except ε α} {next : α → Except ε β} {b : β} :
    (first >>= next) = .ok b ↔ ∃ a, first = .ok a ∧ next a = .ok b := by
  cases first with
  | error error =>
    constructor
    · intro h
      cases h
    · rintro ⟨a, h, -⟩
      cases h
  | ok a =>
    constructor
    · intro h
      exact ⟨a, rfl, h⟩
    · rintro ⟨a, h, hnext⟩
      cases h
      exact hnext

theorem bind_eq_error_iff {ε α β : Type} {first : Except ε α} {next : α → Except ε β} {error : ε} :
    (first >>= next) = .error error ↔
      first = .error error ∨ ∃ a, first = .ok a ∧ next a = .error error := by
  cases first with
  | error error' =>
    constructor
    · intro h
      cases h
      exact .inl rfl
    · rintro (h | ⟨a, h, -⟩)
      · cases h
        rfl
      · cases h
  | ok a =>
    constructor
    · intro h
      exact .inr ⟨a, rfl, h⟩
    · rintro (h | ⟨a, h, hnext⟩)
      · cases h
      · cases h
        exact hnext

/-- A failed run skips what would follow it and keeps the state it had reached. -/
theorem run_bind {ε σ α β : Type} (run : ExceptT ε (StateM σ) α)
    (next : α → ExceptT ε (StateM σ) β) (before : σ) :
    (run >>= next).run.run before =
      match run.run.run before with
      | (.ok a, middle) => (next a).run.run middle
      | (.error error, middle) => (.error error, middle) := by
  show (ExceptT.bindCont next (run.run.run before).1).run (run.run.run before).2 = _
  rcases run.run.run before with ⟨error | a, middle⟩ <;> rfl

theorem run_get_bind {ε σ α : Type} (next : σ → ExceptT ε (StateM σ) α) (before : σ) :
    (get >>= next).run.run before = (next before).run.run before :=
  rfl

namespace OnDisk

variable {α : Type}

/-- An action started on the disk `before` gives `a` and ends with the disk `after`. -/
def Gives (action : OnDisk α) (before : Disk) (a : α) (after : Disk) : Prop :=
  action.run.run before = (.ok a, after)

theorem Gives.unique {action : OnDisk α} {before after after' : Disk} {a a' : α}
    (h : Gives action before a after) (h' : Gives action before a' after') :
    a' = a ∧ after' = after := by
  obtain ⟨hresult, hafter⟩ := Prod.mk.inj (h'.symm.trans h)
  exact ⟨Except.ok.inj hresult, hafter⟩

theorem run_change (step : Disk → Except SystemError Disk) (before : Disk) :
    (change step).run.run before =
      match step before with
      | .ok after => (.ok (), after)
      | .error reason => (.error reason, before) := by
  unfold change
  rw [run_bind]
  show (ExceptT.run (m := StateM Disk) _).run before = _
  cases step before with
  | ok after => rfl
  | error reason => rfl

theorem gives_change {step : Disk → Except SystemError Disk} {before after : Disk} :
    Gives (change step) before () after ↔ step before = .ok after := by
  unfold Gives
  rw [run_change]
  cases step before with
  | ok made =>
    constructor
    · intro h
      cases h
      rfl
    · intro h
      cases h
      rfl
  | error reason =>
    constructor
    · intro h
      cases h
    · intro h
      cases h

end OnDisk

namespace Run

variable {α β : Type}

/-- A run started in the world `before` gives `a` and ends in the world `after`. -/
def Gives (run : Run α) (before : World) (a : α) (after : World) : Prop :=
  run.run.run before = (.ok a, after)

theorem Gives.unique {run : Run α} {before after after' : World} {a a' : α}
    (h : Gives run before a after) (h' : Gives run before a' after') : a' = a ∧ after' = after := by
  obtain ⟨hresult, hafter⟩ := Prod.mk.inj (h'.symm.trans h)
  exact ⟨Except.ok.inj hresult, hafter⟩

theorem gives_pure {a b : α} {before after : World} :
    Gives (pure a) before b after ↔ a = b ∧ before = after := by
  show (Except.ok a, before) = (Except.ok b, after) ↔ _
  rw [Prod.mk.injEq, Except.ok.injEq]

theorem gives_bind {run : Run α} {next : α → Run β} {before after : World} {b : β} :
    Gives (run >>= next) before b after ↔
      ∃ a middle, Gives run before a middle ∧ Gives (next a) middle b after := by
  unfold Gives
  rw [run_bind]
  rcases run.run.run before with ⟨error | a, middle⟩
  · constructor
    · intro h
      cases h
    · rintro ⟨a, middle, h, -⟩
      cases h
  · constructor
    · intro h
      exact ⟨a, middle, rfl, h⟩
    · rintro ⟨a, middle, h, hnext⟩
      cases h
      exact hnext

theorem run_bind_of_gives {run : Run α} {next : α → Run β} {before middle : World} {a : α}
    (h : Gives run before a middle) :
    (run >>= next).run.run before = (next a).run.run middle := by
  rw [run_bind, show run.run.run before = (.ok a, middle) from h]

theorem run_bind_of_error {run : Run α} {next : α → Run β} {before after : World}
    {error : CheckError} (h : run.run.run before = (.error error, after)) :
    (run >>= next).run.run before = (.error error, after) := by
  rw [run_bind, h]

theorem gives_notify {notices : List Notice} {before after : World} :
    Gives (notify notices) before () after ↔
      after = { before with notices := before.notices ++ notices } := by
  show (Except.ok (), { before with notices := before.notices ++ notices }) =
    (Except.ok (), after) ↔ _
  rw [Prod.mk.injEq, eq_comm (a := after)]
  exact and_iff_right rfl

theorem gives_disk {before after : World} {d : Disk} :
    Gives disk before d after ↔ before.disk = d ∧ before = after := by
  show (Except.ok before.disk, before) = (Except.ok d, after) ↔ _
  rw [Prod.mk.injEq, Except.ok.injEq]

theorem gives_ofExcept {result : Except CheckError α} {before after : World} {a : α} :
    Gives (ofExcept result) before a after ↔ result = .ok a ∧ before = after := by
  cases result with
  | ok b =>
    show Gives (pure b) before a after ↔ _
    rw [gives_pure, Except.ok.injEq]
  | error error =>
    constructor
    · intro h
      cases h
    · rintro ⟨h, -⟩
      cases h

theorem run_onDisk (fault : SystemError → CheckError) (action : OnDisk α) (before : World) :
    (onDisk fault action).run.run before =
      ((action.run.run before.disk).1.mapError fault,
        { before with disk := (action.run.run before.disk).2 }) := by
  unfold onDisk
  rw [run_bind]
  show (ExceptT.run (m := StateM World) _).run before = _
  rcases action.run.run before.disk with ⟨reason | a, disk⟩
  · rfl
  · rfl

theorem gives_onDisk {fault : SystemError → CheckError} {action : OnDisk α}
    {before after : World} {a : α} :
    Gives (onDisk fault action) before a after ↔
      OnDisk.Gives action before.disk a after.disk ∧ after.notices = before.notices := by
  unfold Gives OnDisk.Gives
  rw [run_onDisk]
  obtain ⟨last, notices⟩ := after
  rcases action.run.run before.disk with ⟨reason | b, disk⟩
  · constructor
    · intro h
      cases h
    · rintro ⟨h, -⟩
      cases h
  · constructor
    · intro h
      cases h
      exact ⟨rfl, rfl⟩
    · rintro ⟨h, hn⟩
      cases h
      cases hn
      rfl

theorem gives_mapM_nil {f : α → Run β} {before after : World} {bs : List β} :
    Gives ([].mapM f) before bs after ↔ bs = [] ∧ before = after := by
  rw [List.mapM_nil, gives_pure, eq_comm]

theorem gives_mapM_cons {f : α → Run β} {a : α} {others : List α} {before after : World}
    {bs : List β} :
    Gives ((a :: others).mapM f) before bs after ↔
      ∃ b middle rest, Gives (f a) before b middle ∧
        Gives (others.mapM f) middle rest after ∧ bs = b :: rest := by
  rw [List.mapM_cons, gives_bind]
  refine exists_congr fun b => exists_congr fun middle => ?_
  rw [gives_bind]
  constructor
  · rintro ⟨hb, rest, last, hrest, hpure⟩
    obtain ⟨rfl, rfl⟩ := gives_pure.1 hpure
    exact ⟨rest, hb, hrest, rfl⟩
  · rintro ⟨rest, hb, hrest, rfl⟩
    exact ⟨hb, rest, after, hrest, gives_pure.2 ⟨rfl, rfl⟩⟩

theorem gives_forM_nil {f : α → Run PUnit} {before after : World} :
    Gives ([].forM f) before ⟨⟩ after ↔ before = after := by
  show Gives (pure PUnit.unit) before PUnit.unit after ↔ _
  rw [gives_pure]
  exact and_iff_right rfl

theorem gives_forM_cons {f : α → Run PUnit} {a : α} {others : List α} {before after : World} :
    Gives ((a :: others).forM f) before ⟨⟩ after ↔
      ∃ middle, Gives (f a) before ⟨⟩ middle ∧ Gives (others.forM f) middle ⟨⟩ after := by
  show Gives (f a >>= fun _ => others.forM f) before PUnit.unit after ↔ _
  rw [gives_bind]
  exact ⟨fun ⟨_, middle, h⟩ => ⟨middle, h⟩, fun ⟨middle, h⟩ => ⟨⟨⟩, middle, h⟩⟩

/-- Going through a list for its effects alone succeeds as going through it for its values does. -/
theorem gives_forM {f : α → Run PUnit} {items : List α} {before after : World} :
    Gives (items.forM f) before ⟨⟩ after ↔ ∃ units, Gives (items.mapM f) before units after := by
  induction items generalizing before with
  | nil =>
    rw [gives_forM_nil]
    constructor
    · intro h
      exact ⟨[], gives_mapM_nil.2 ⟨rfl, h⟩⟩
    · rintro ⟨_, h⟩
      exact (gives_mapM_nil.1 h).2
  | cons item others ih =>
    rw [gives_forM_cons]
    constructor
    · rintro ⟨middle, hitem, hothers⟩
      obtain ⟨units, hothers⟩ := ih.1 hothers
      exact ⟨_, gives_mapM_cons.2 ⟨⟨⟩, middle, units, hitem, hothers, rfl⟩⟩
    · rintro ⟨_, h⟩
      obtain ⟨⟨⟩, middle, units, hitem, hothers, -⟩ := gives_mapM_cons.1 h
      exact ⟨middle, hitem, ih.2 ⟨units, hothers⟩⟩

/-- Going through a list, by induction: what each element's turn adds to a relation between the
worlds before and after the others' turns. -/
theorem gives_mapM_rel {f : α → Run β} (R : List α → World → World → Prop) {items : List α}
    (nil : ∀ world, R [] world world)
    (cons : ∀ item ∈ items, ∀ others before middle after b, Gives (f item) before b middle →
      R others middle after → R (item :: others) before after)
    {before after : World} {bs : List β} (h : Gives (items.mapM f) before bs after) :
    R items before after := by
  induction items generalizing before bs with
  | nil =>
    obtain ⟨-, rfl⟩ := gives_mapM_nil.1 h
    exact nil before
  | cons item others ih =>
    obtain ⟨hitem, hothers⟩ := List.forall_mem_cons.1 cons
    obtain ⟨b, middle, rest, hfirst, hrest, -⟩ := gives_mapM_cons.1 h
    exact hitem others before middle after b hfirst (ih hothers hrest)

/-- What can be told of the value of each element's turn can be told of the list of values. -/
theorem map_eq_of_gives_mapM {γ : Type} {f : α → Run β} {view : β → γ} {expected : α → γ}
    {items : List α}
    (step : ∀ item ∈ items, ∀ before after b, Gives (f item) before b after →
      view b = expected item)
    {before after : World} {bs : List β} (h : Gives (items.mapM f) before bs after) :
    bs.map view = items.map expected := by
  induction items generalizing before bs with
  | nil =>
    obtain ⟨rfl, -⟩ := gives_mapM_nil.1 h
    rfl
  | cons item others ih =>
    obtain ⟨hitem, hothers⟩ := List.forall_mem_cons.1 step
    obtain ⟨b, middle, rest, hfirst, hrest, rfl⟩ := gives_mapM_cons.1 h
    rw [List.map_cons, List.map_cons, hitem before middle b hfirst, ih hothers hrest]

theorem gives_of_mem {f : α → Run β} {items : List α} {before after : World} {bs : List β}
    (h : Gives (items.mapM f) before bs after) {item : α} (hitem : item ∈ items) :
    ∃ b first last, Gives (f item) first b last := by
  induction items generalizing before bs with
  | nil => cases hitem
  | cons other others ih =>
    obtain ⟨b, middle, rest, hother, hothers, -⟩ := gives_mapM_cons.1 h
    rcases List.mem_cons.1 hitem with rfl | hitem
    · exact ⟨b, before, middle, hother⟩
    · exact ih hothers hitem

end Run

end LiterateCheck
