import CallSites.Program
import CallSites.Proofs.IgnoredUnion
import CallSites.Proofs.Settings
import CallSites.Proofs.TreeScan

/-!
# All or nothing

A run has five conditions, and they are met one after the other: the form of the report is known,
its path leads somewhere, its settings can be loaded, they can be used, and every item of the walk
is a source file that can be read. A run that meets all of them prints the report on the whole tree.
Any other prints nothing, and complains about the first condition that it does not meet.

The conditions are stated here without a run, and the first that fails as a relation with a rule for
each of them that asks for all the earlier ones; the two conditions on settings have stages of their
own. The events that a run notes on its way are of no concern; `Run.Gives` says what the result is
whatever has been noted.
-/

namespace CallSites

variable {fs : FileSystem} {o : Options}

/-! ## Results of a run -/

namespace Run

variable {α β ε : Type} {m : Run α} {f : α → Run β} {a : α} {e : RunError}

/-- The result of a part of a run, whatever events have been noted before. -/
def Gives (m : Run α) (result : Except RunError α) : Prop :=
  ∀ events, (m.run.run events).1 = result

theorem Gives.unique {result result' : Except RunError α} (h : m.Gives result)
    (h' : m.Gives result') : result = result' :=
  (h []).symm.trans (h' [])

theorem gives_pure (a : α) : (pure a : Run α).Gives (.ok a) :=
  fun _ ↦ rfl

theorem gives_throw (e : RunError) : (throw e : Run α).Gives (.error e) :=
  fun _ ↦ rfl

theorem gives_note (e : Event) : (note e).Gives (.ok ()) :=
  fun _ ↦ rfl

theorem gives_lift {cause : ε → RunError} {result : Except ε α} (h : result = .ok a) :
    (lift cause result).Gives (.ok a) := by
  subst h
  exact gives_pure a

theorem gives_lift_error {cause : ε → RunError} {result : Except ε α} {e : ε}
    (h : result = .error e) : (lift cause result).Gives (.error (cause e)) := by
  subst h
  exact gives_throw (cause e)

theorem run_bind (m : Run α) (f : α → Run β) (events : List Event) :
    (m >>= f).run.run events =
      match m.run.run events with
      | (.ok a, events) => (f a).run.run events
      | (.error e, events) => (.error e, events) := by
  rw [ExceptT.run_bind, StateT.run_bind]
  change (match m.run.run events with | (result, events) => _) = _
  rcases m.run.run events with ⟨_ | _, _⟩
  · rfl
  · rfl

theorem Gives.bind {result : Except RunError β} (hm : m.Gives (.ok a))
    (hf : (f a).Gives result) : (m >>= f).Gives result := by
  intro events
  have h := hm events
  rw [run_bind]
  rcases hrun : m.run.run events with ⟨r, events'⟩
  rw [hrun] at h
  obtain rfl : r = .ok a := h
  exact hf events'

theorem Gives.bind_error (hm : m.Gives (.error e)) : (m >>= f).Gives (.error e) := by
  intro events
  have h := hm events
  rw [run_bind]
  rcases hrun : m.run.run events with ⟨r, events'⟩
  rw [hrun] at h
  obtain rfl : r = .error e := h
  rfl

theorem gives_forM_note {γ : Type} (l : List γ) (event : γ → Event) :
    (l.forM fun x ↦ note (event x)).Gives (.ok ()) := by
  induction l with
  | nil => exact gives_pure ()
  | cons x l ih => exact (gives_note (event x)).bind ih

end Run

/-! ## The conditions of a run -/

namespace Options

/-- The form of report asked for is one of the two. -/
def FormatKnown (o : Options) : Prop :=
  o.format = "pretty" ∨ o.format = "json"

/-- The settings file of a run: the one that is named, else the first of two in the root that is a
regular file. -/
def settingsPath (o : Options) (fs : FileSystem) : Option String :=
  match o.settingsFile with
  | some path => some path
  | none =>
    if fs.isFile (joinPath o.path "callmap.yaml") then some (joinPath o.path "callmap.yaml")
    else if fs.isFile (joinPath o.path ".callmap.yaml") then some (joinPath o.path ".callmap.yaml")
    else none

/-- The settings of a run are the given ones: those that its settings file holds, or else the
defaults, and behind their directories those that the command line adds, each new one once. -/
def SettingsAre (o : Options) (fs : FileSystem) (settings : Settings) : Prop :=
  ∃ base : Settings,
    settings = { base with
      ignoredDirs :=
        base.ignoredDirs ++ (o.ignore.filter fun n ↦ decide (n ∉ base.ignoredDirs)).eraseDups } ∧
    match o.settingsPath fs with
    | some path => Settings.HeldAt fs path base
    | none => base = {}

/-- A run that meets all its conditions, with its settings and the files that it reads. -/
structure Succeeds (o : Options) (fs : FileSystem) (settings : Settings)
    (files : List (String × List Char)) : Prop where
  formatKnown : o.FormatKnown
  pathFound : ∃ found, fs.find o.path = .ok found
  settingsAre : o.SettingsAre fs settings
  usable : settings.Usable
  readsAs : List.Forall₂ (WalkItem.ReadsAs fs) (walk fs settings o.path) files

/-- The first condition that a run does not meet, by the error that this is. -/
inductive FirstFailure (o : Options) (fs : FileSystem) : RunError → Prop
  | format (hformat : ¬o.FormatKnown) : FirstFailure o fs (.badFormat o.format)
  | path {e : OsError} (hformat : o.FormatKnown) (hpath : fs.find o.path = .error e) :
    FirstFailure o fs (.noAccess o.path e)
  | settings {found : Spot × FileTree} {path : String} {e : LoadError} (hformat : o.FormatKnown)
    (hpath : fs.find o.path = .ok found) (hselected : o.settingsPath fs = some path)
    (hload : Settings.Unloadable fs path e) : FirstFailure o fs (.settings e)
  | usable {found : Spot × FileTree} {settings : Settings} {fault : SettingsFault}
    (hformat : o.FormatKnown) (hpath : fs.find o.path = .ok found)
    (hsettings : o.SettingsAre fs settings) (hfault : settings.FirstFault fault) :
    FirstFailure o fs (.unusable fault)
  | files {found : Spot × FileTree} {settings : Settings} {e : ScanError}
    (hformat : o.FormatKnown) (hpath : fs.find o.path = .ok found)
    (hsettings : o.SettingsAre fs settings) (husable : settings.Usable)
    (hstop : FirstStop fs o.path (walk fs settings o.path) e) : FirstFailure o fs (.scan e)

theorem discover_eq (fs : FileSystem) (root : String) :
    Settings.discover fs root =
      if fs.isFile (joinPath root "callmap.yaml") then some (joinPath root "callmap.yaml")
      else if fs.isFile (joinPath root ".callmap.yaml") then some (joinPath root ".callmap.yaml")
      else none := by
  rw [Settings.discover, Settings.fileNames, List.map_cons, List.map_cons, List.map_nil,
    List.find?_cons, List.find?_cons, List.find?_nil]
  cases fs.isFile (joinPath root "callmap.yaml") <;>
    cases fs.isFile (joinPath root ".callmap.yaml") <;> rfl

theorem settingsPath_eq (o : Options) (fs : FileSystem) :
    o.settingsPath fs = (o.settingsFile <|> Settings.discover fs o.path) := by
  rw [settingsPath, discover_eq]
  cases o.settingsFile <;> rfl

theorem SettingsAre.gives {settings : Settings} (h : o.SettingsAre fs settings) :
    (o.settings fs).Gives (.ok settings) := by
  obtain ⟨base, rfl, hbase⟩ := h
  rw [Options.settings, ← settingsPath_eq, ← Settings.ignoring_eq]
  cases hpath : o.settingsPath fs with
  | none =>
    rw [hpath] at hbase
    subst hbase
    exact (Run.gives_pure _).bind (Run.gives_pure _)
  | some path =>
    rw [hpath] at hbase
    exact (Run.gives_note _).bind ((Run.gives_lift hbase.load_eq).bind (Run.gives_pure _))

theorem settings_gives_error {path : String} {e : LoadError} (hpath : o.settingsPath fs = some path)
    (hload : Settings.Unloadable fs path e) : (o.settings fs).Gives (.error (.settings e)) := by
  rw [Options.settings, ← settingsPath_eq, hpath]
  exact (Run.gives_note _).bind (Run.gives_lift_error hload.load_eq).bind_error

theorem findings_gives {settings : Settings} {files : List (String × List Char)}
    (h : List.Forall₂ (WalkItem.ReadsAs fs) (walk fs settings o.path) files) :
    (o.findings fs settings).Gives
      (.ok (.ofFiles (files.map fun f ↦ .ofText settings.keywords f.1 f.2))) := by
  rw [Options.findings, scanFiles_of_readsAs h]
  refine (Run.gives_forM_note _ _).bind ?_
  dsimp only
  split
  · exact (Run.gives_note _).bind ((Run.gives_note _).bind (Run.gives_pure _))
  · exact (Run.gives_note _).bind (Run.gives_pure _)

theorem findings_gives_error {settings : Settings} {e : ScanError}
    (h : FirstStop fs o.path (walk fs settings o.path) e) :
    (o.findings fs settings).Gives (.error (.scan e)) := by
  obtain ⟨files, hfiles⟩ := exists_scanFiles_of_firstStop h
  rw [Options.findings, hfiles]
  exact (Run.gives_forM_note _ _).bind (Run.gives_throw _)

/-! ## Whole runs -/

/-- The text of a report in the form that a command line asks for. -/
def rendering (o : Options) (painted : Bool) (r : Report) : String :=
  if o.format = "json" then r.structured o.path ++ "\n" else r.pretty painted

theorem FormatKnown.ofName? (h : o.FormatKnown) :
    ∃ format, Format.ofName? o.format = some format ∧
      ∀ (r : Report) painted, r.written format o.path painted = o.rendering painted r := by
  rcases h with h | h
  · refine ⟨.pretty, by rw [h]; rfl, fun r painted ↦ ?_⟩
    rw [rendering, h]
    rfl
  · refine ⟨.json, by rw [h]; rfl, fun r painted ↦ ?_⟩
    rw [rendering, if_pos h]
    rfl

theorem ofName?_eq_none (h : ¬o.FormatKnown) : Format.ofName? o.format = none := by
  rw [FormatKnown, not_or] at h
  unfold Format.ofName?
  split
  · exact absurd ‹_› h.1
  · exact absurd ‹_› h.2
  · rfl

/-- A run that meets all its conditions prints the report on all its files. -/
theorem Succeeds.gives {settings : Settings} {files : List (String × List Char)}
    (h : o.Succeeds fs settings files) (colour : Bool) :
    (o.report fs colour).Gives
      (.ok (o.rendering (colour && !o.noColour) (reportOn settings.keywords files))) := by
  obtain ⟨format, hformat, hwritten⟩ := h.formatKnown.ofName?
  obtain ⟨found, hfound⟩ := h.pathFound
  rw [Options.report, hformat]
  refine (Run.gives_pure format).bind
    ((Run.gives_lift hfound).bind (h.settingsAre.gives.bind ?_))
  simp only [h.usable.fault?_eq]
  refine (findings_gives h.readsAs).bind ?_
  rw [← hwritten]
  exact Run.gives_pure _

/-- A run ends with the first condition that it does not meet. -/
theorem FirstFailure.gives {e : RunError} (h : o.FirstFailure fs e) (colour : Bool) :
    (o.report fs colour).Gives (.error e) := by
  cases h with
  | format hformat =>
    rw [Options.report, ofName?_eq_none hformat]
    exact (Run.gives_throw _).bind_error
  | path hformat hpath =>
    obtain ⟨format, hname, -⟩ := hformat.ofName?
    rw [Options.report, hname]
    exact (Run.gives_pure format).bind (Run.gives_lift_error hpath).bind_error
  | settings hformat hpath hselected hload =>
    obtain ⟨format, hname, -⟩ := hformat.ofName?
    rw [Options.report, hname]
    exact (Run.gives_pure format).bind
      ((Run.gives_lift hpath).bind (settings_gives_error hselected hload).bind_error)
  | usable hformat hpath hsettings hfault =>
    obtain ⟨format, hname, -⟩ := hformat.ofName?
    rw [Options.report, hname]
    refine (Run.gives_pure format).bind ((Run.gives_lift hpath).bind (hsettings.gives.bind ?_))
    simp only [hfault.fault?_eq]
    exact Run.gives_throw _
  | files hformat hpath hsettings husable hstop =>
    obtain ⟨format, hname, -⟩ := hformat.ofName?
    rw [Options.report, hname]
    refine (Run.gives_pure format).bind ((Run.gives_lift hpath).bind (hsettings.gives.bind ?_))
    simp only [husable.fault?_eq]
    exact (findings_gives_error hstop).bind_error

end Options

section Outcome

variable {s : Surroundings}

end Outcome

end CallSites
