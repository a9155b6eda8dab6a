import LiterateCheck.CommandLine.Arguments
import LiterateCheck.Proofs.Run.Success

/-!
# What a command line names

A place that a command line names has a name: an empty value is only taken for the program that
checks. Values are taken in many ways, attached to an option, as the next word, or after `--`, and
each keeps what holds of the values taken before (`Filled`).
-/

namespace LiterateCheck.Arguments

namespace Reading

/-- Every place that was read so far has a name. -/
structure Filled (reading : Reading) : Prop where
  settings : ∀ item ∈ reading.settings, item.1 = .moon ∨ item.2 ≠ ""
  files : "" ∉ reading.files

theorem filled_start : Filled start := ⟨by simp [start], by simp [start]⟩

/-- What is not yet checked has no part in it. -/
theorem Filled.with_pending {reading : Reading} (h : reading.Filled) (pending : Pending) :
    Filled { reading with pending := pending } := ⟨h.settings, h.files⟩

theorem Filled.set {reading next : Reading} (h : reading.Filled) {setting : Setting}
    {text : String} (hset : reading.set setting text = .ok next) : next.Filled := by
  unfold Reading.set at hset
  split at hset
  · cases hset
  split at hset
  · cases hset
  · rename_i hvalue
    cases hset
    refine ⟨fun item hitem => ?_, h.files⟩
    rcases List.mem_append.1 hitem with hitem | hitem
    · exact h.settings item hitem
    · obtain rfl := List.mem_singleton.1 hitem
      by_cases hmoon : setting = .moon
      · exact .inl hmoon
      · refine .inr fun hempty => hvalue ?_
        have htext : text = "" := hempty
        simp [htext, hmoon]

theorem Filled.settle {reading next : Reading} (h : reading.Filled)
    (hsettle : reading.settle = .ok next) : next.Filled := by
  unfold Reading.settle at hsettle
  split at hsettle
  · cases hsettle
    exact h
  · cases hsettle
  · exact h.set hsettle
  · split at hsettle
    · cases hsettle
    · rename_i hfiles
      cases hsettle
      exact ⟨h.settings, by simpa [h.files] using hfiles⟩

theorem Filled.takeSwitch {reading next : Reading} (h : reading.Filled) {switch : Switch}
    (htake : reading.takeSwitch switch = .ok next) : next.Filled := by
  obtain ⟨settled, hsettle, htake⟩ := bind_eq_ok_iff.1 htake
  split at htake
  · cases htake
  · cases htake
    exact ⟨(h.settle hsettle).settings, (h.settle hsettle).files⟩

theorem Filled.takeSetting {reading next : Reading} (h : reading.Filled) {setting : Setting}
    {attached? : Option String} (htake : reading.takeSetting setting attached? = .ok next) :
    next.Filled := by
  obtain ⟨settled, hsettle, htake⟩ := bind_eq_ok_iff.1 htake
  cases attached? with
  | some text => exact (h.settle hsettle).set htake
  | none =>
    cases htake
    exact (h.settle hsettle).with_pending _

theorem Filled.takeWord {reading next : Reading} (h : reading.Filled) {text : String}
    (htake : reading.takeWord text = .ok next) : next.Filled := by
  unfold Reading.takeWord at htake
  split at htake
  · cases htake
    exact h.with_pending _
  · cases htake
    exact h.with_pending _
  · obtain ⟨settled, hsettle, htake⟩ := bind_eq_ok_iff.1 htake
    cases htake
    exact (h.settle hsettle).with_pending _

theorem Filled.takeFile {reading next : Reading} (h : reading.Filled) {text : String}
    (htake : reading.takeFile text = .ok next) : next.Filled := by
  unfold Reading.takeFile at htake
  split at htake
  · cases htake
  · exact h.takeWord htake

theorem Filled.takeLong {reading next : Reading} (h : reading.Filled) {text : List Char}
    (htake : reading.takeLong text = .ok next) : next.Filled := by
  unfold Reading.takeLong at htake
  dsimp only at htake
  split at htake
  · cases htake
  · exact h.takeSetting htake
  · cases htake
  · exact h.takeSwitch htake
  · obtain ⟨settled, -, htake⟩ := bind_eq_ok_iff.1 htake
    cases htake
  · obtain ⟨settled, -, htake⟩ := bind_eq_ok_iff.1 htake
    cases htake

theorem Filled.takeShort {reading next : Reading} (h : reading.Filled) {text : List Char}
    (htake : reading.takeShort text = .ok next) : next.Filled := by
  induction text generalizing reading with
  | nil =>
    cases htake
    exact h
  | cons c rest ih =>
    unfold Reading.takeShort at htake
    split at htake
    · cases htake
    · split at htake
      · rename_i hswitch
        exact ih (h.takeSwitch hswitch) htake
      · cases htake
    · exact h.takeSetting htake
    · obtain ⟨settled, -, htake⟩ := bind_eq_ok_iff.1 htake
      cases htake
    · obtain ⟨settled, -, htake⟩ := bind_eq_ok_iff.1 htake
      cases htake

theorem Filled.take {reading next : Reading} (h : reading.Filled) {word : String}
    (htake : reading.take word = .ok next) : next.Filled := by
  unfold Reading.take at htake
  split at htake
  · exact h.takeLong htake
  · exact h.takeShort htake
  · exact h.takeWord htake

theorem Filled.takeFiles {reading next : Reading} (h : reading.Filled) {words : List String}
    (htake : words.foldlM Reading.takeFile reading = .ok next) : next.Filled := by
  induction words generalizing reading with
  | nil =>
    cases htake
    exact h
  | cons word others ih =>
    rw [List.foldlM_cons] at htake
    obtain ⟨taken, hword, hothers⟩ := bind_eq_ok_iff.1 htake
    exact ih (h.takeFile hword) hothers

theorem Filled.takeAll {reading next : Reading} (h : reading.Filled) {words : List String}
    (htake : reading.takeAll words = .ok next) : next.Filled := by
  induction words generalizing reading with
  | nil =>
    cases htake
    exact h
  | cons word others ih =>
    unfold Reading.takeAll at htake
    split at htake
    · exact h.takeFiles htake
    · split at htake
      · rename_i hword
        exact ih (h.take hword) htake
      · cases htake

theorem Filled.text_ne_empty {reading : Reading} (h : reading.Filled) {setting : Setting}
    (hsetting : setting ≠ .moon) {path : Path}
    (hpath : (reading.settings.lookup setting).map Path.mk = some path) : path.text ≠ "" := by
  obtain ⟨text, htext, rfl⟩ := Option.map_eq_some_iff.1 hpath
  obtain ⟨front, back, hsettings, -⟩ := List.lookup_eq_some_iff.1 htext
  have hmem : (setting, text) ∈ reading.settings := by
    rw [hsettings]
    exact List.mem_append_right _ (List.mem_cons_self ..)
  exact (h.settings _ hmem).resolve_left hsetting

end Reading

/-- Every place that a command line names has a name. -/
structure Named (arguments : Arguments) : Prop where
  files : ∀ file ∈ arguments.files, file.text ≠ ""
  complementary {path : Path} : arguments.complementary? = some path → path.text ≠ ""
  path {path : Path} : arguments.path? = some path → path.text ≠ ""
  output {path : Path} : arguments.output? = some path → path.text ≠ ""

/-- A command line that can be carried out leaves no place without a name. -/
theorem named_of_parse {words : List String} {arguments : Arguments}
    (h : parse words = .ok arguments) : arguments.Named := by
  obtain ⟨taken, htake, h⟩ := bind_eq_ok_iff.1 h
  obtain ⟨settled, hsettle, h⟩ := bind_eq_ok_iff.1 h
  cases h
  have hfilled := (Reading.filled_start.takeAll htake).settle hsettle
  refine ⟨fun file hfile hempty => ?_, fun hpath => hfilled.text_ne_empty (by decide) hpath,
    fun hpath => hfilled.text_ne_empty (by decide) hpath,
    fun hpath => hfilled.text_ne_empty (by decide) hpath⟩
  obtain ⟨text, htext, rfl⟩ := List.mem_map.1 hfile
  exact hfilled.files (hempty ▸ htext)

end LiterateCheck.Arguments
