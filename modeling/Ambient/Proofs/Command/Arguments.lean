import Ambient.Command.Arguments

/-!
# A dry run on the command line

Whether a run is a dry one is noted with the other settings and counts for nothing while
the arguments are read. So a command line that asks for a dry run reads like the same
line without the flag, wherever in it the flag stands.
-/

namespace Ambient

/-- The options of the same run, if all is to go to the standard output. -/
def GenerateOptions.toStandardOutput (options : GenerateOptions) : GenerateOptions :=
  { options with output := none }

namespace Arguments

theorem exists_of_bind_eq_ok {ε α β : Type} {first : Except ε α} {next : α → Except ε β} {b : β}
    (h : first >>= next = .ok b) : ∃ a, first = .ok a ∧ next a = .ok b := by
  cases first with
  | error error => exact nomatch h
  | ok a => exact ⟨a, rfl, h⟩

/-! ## Settings -/

namespace Settings

/-- The settings of the same run, if it is not to be a dry one. -/
def withoutDryRun (settings : Settings) : Settings :=
  { settings with given := settings.given.filter (·.1 ≠ .dryRun) }

variable {settings : Settings} {option : Opt}

theorem values_withoutDryRun (h : option ≠ .dryRun) :
    settings.withoutDryRun.values option = settings.values option := by
  unfold values withoutDryRun
  rw [List.filter_filter]
  refine congrArg _ (List.filter_congr fun pair _ => ?_)
  by_cases hpair : pair.1 = option <;> simp [hpair, h]

theorem has_withoutDryRun (h : option ≠ .dryRun) :
    settings.withoutDryRun.has option = settings.has option := by
  unfold has withoutDryRun
  rw [List.any_filter]
  refine congrArg (List.any settings.given) (funext fun pair => ?_)
  by_cases hpair : pair.1 = option <;> simp [hpair, h]

theorem has_dryRun_withoutDryRun : settings.withoutDryRun.has .dryRun = false := by
  simp [has, withoutDryRun]

theorem withoutDryRun_of_not_has (h : settings.has .dryRun = false) :
    settings.withoutDryRun = settings := by
  have hnone : ∀ pair ∈ settings.given, decide (pair.1 = Opt.dryRun) = false :=
    fun pair hpair => by simpa using List.any_eq_false.mp h pair hpair
  unfold withoutDryRun
  rw [List.filter_eq_self.mpr fun pair hpair => by simpa using hnone pair hpair]

theorem withoutDryRun_note_dryRun (h : settings.has .dryRun = false) (value : String) :
    ({ settings with given := settings.given ++ [(.dryRun, value)] } : Settings).withoutDryRun
      = settings := by
  refine Eq.trans ?_ (withoutDryRun_of_not_has h)
  simp [withoutDryRun, List.filter_append]

end Settings

/-! ## Reading on after the flag -/

section After

variable {topic : Topic} {form : HelpForm} {subcommand : Subcommand} {settings read : Settings}
  {option : Opt} {pending : Option Opt} {value : String}

/-- What a noted option takes for granted. -/
theorem note_eq_ok (h : note settings option value = .ok read) :
    isValue option value = true ∧ (option.mayRepeat || ! settings.has option) = true ∧
      read = { settings with given := settings.given ++ [(option, value)] } := by
  unfold note at h
  split at h
  case isTrue hnew =>
    obtain ⟨hvalue, hcount⟩ := Bool.and_eq_true_iff.mp hnew
    exact ⟨hvalue, hcount, (Except.ok.inj h).symm⟩
  case isFalse => exact nomatch h

/-- Something was noted, and no value is waited for. -/
theorem eq_ok_of_noted {noted : Except Detour Settings}
    (h : (do return (← noted, none)) = Except.ok (read, pending)) :
    noted = .ok read ∧ pending = none := by
  obtain ⟨next, hnext, hread⟩ := exists_of_bind_eq_ok h
  obtain ⟨rfl, rfl⟩ := Prod.mk.inj (Except.ok.inj hread)
  exact ⟨hnext, rfl⟩

theorem note_withoutDryRun (hdry : settings.has .dryRun = true)
    (h : note settings option value = .ok read) :
    read.has .dryRun = true ∧
      note settings.withoutDryRun option value = .ok read.withoutDryRun := by
  obtain ⟨hvalue, hcount, rfl⟩ := note_eq_ok h
  -- A second dry run is a mistake.
  have hother : option ≠ .dryRun := by
    rintro rfl
    rw [hdry] at hcount
    exact nomatch hcount
  refine ⟨?_, ?_⟩
  · unfold Settings.has at hdry ⊢
    rw [List.any_append, hdry, Bool.true_or]
  · unfold note
    rw [Settings.has_withoutDryRun hother, hvalue, hcount]
    simp [Settings.withoutDryRun, List.filter_append, hother]

theorem noteFlag_withoutDryRun (hdry : settings.has .dryRun = true)
    (h : noteFlag topic form settings option = .ok read) :
    read.has .dryRun = true ∧
      noteFlag topic form settings.withoutDryRun option = .ok read.withoutDryRun := by
  cases option with
  | help => exact nomatch h
  | version => exact nomatch h
  | _ => exact note_withoutDryRun hdry h

theorem readPlain_withoutDryRun {argument : String} (hdry : settings.has .dryRun = true)
    (h : readPlain subcommand settings argument = .ok read) :
    read.has .dryRun = true ∧
      readPlain subcommand settings.withoutDryRun argument = .ok read.withoutDryRun := by
  unfold readPlain at h ⊢
  split at h
  case h_1 shell hshells hshell =>
    obtain rfl := Except.ok.inj h
    refine ⟨hdry, ?_⟩
    have hnone : settings.withoutDryRun.shells = [] := hshells
    rw [hnone, hshell]
    rfl
  case h_2 => exact nomatch h

theorem foldlM_readPlain_withoutDryRun {arguments : List String}
    (hdry : settings.has .dryRun = true)
    (h : arguments.foldlM (readPlain subcommand) settings = .ok read) :
    read.has .dryRun = true ∧
      arguments.foldlM (readPlain subcommand) settings.withoutDryRun = .ok read.withoutDryRun := by
  induction arguments generalizing settings with
  | nil =>
    obtain rfl := Except.ok.inj h
    exact ⟨hdry, rfl⟩
  | cons argument rest ih =>
    rw [List.foldlM_cons] at h ⊢
    obtain ⟨next, hnext, hrest⟩ := exists_of_bind_eq_ok h
    obtain ⟨hkept, hwithout⟩ := readPlain_withoutDryRun hdry hnext
    rw [hwithout]
    exact ih hkept hrest

theorem readLetters_withoutDryRun {letters : List Char} (hdry : settings.has .dryRun = true)
    (h : readLetters topic settings letters = .ok (read, pending)) :
    read.has .dryRun = true ∧
      readLetters topic settings.withoutDryRun letters = .ok (read.withoutDryRun, pending) := by
  induction letters generalizing settings with
  | nil =>
    obtain ⟨rfl, rfl⟩ := Prod.mk.inj (Except.ok.inj h)
    exact ⟨hdry, rfl⟩
  | cons c cs ih =>
    unfold readLetters at h ⊢
    cases hfind : topic.options.find? (·.letter? = some c) with
    | none =>
      rw [hfind] at h
      exact nomatch h
    | some option =>
      simp only [hfind] at h ⊢
      by_cases htakes : option.takesValue = true
      · rw [if_pos htakes] at h ⊢
        -- Attached or still to come, the value is read without regard to the settings.
        split at h
        case h_1 =>
          obtain ⟨rfl, rfl⟩ := Prod.mk.inj (Except.ok.inj h)
          exact ⟨hdry, rfl⟩
        all_goals
          obtain ⟨hnext, rfl⟩ := eq_ok_of_noted h
          obtain ⟨hkept, hwithout⟩ := note_withoutDryRun hdry hnext
          simp only [hwithout]
          exact ⟨hkept, rfl⟩
      · rw [if_neg htakes] at h ⊢
        obtain ⟨next, hnext, hread⟩ := exists_of_bind_eq_ok h
        obtain ⟨hkept, hwithout⟩ := noteFlag_withoutDryRun hdry hnext
        rw [hwithout]
        exact ih hkept hread

theorem readLong_withoutDryRun {name : String} {given : Option String}
    (hdry : settings.has .dryRun = true)
    (h : readLong topic settings name given = .ok (read, pending)) :
    read.has .dryRun = true ∧
      readLong topic settings.withoutDryRun name given = .ok (read.withoutDryRun, pending) := by
  unfold readLong at h ⊢
  cases hfind : topic.options.find? (·.long = name) with
  | none =>
    rw [hfind] at h
    exact nomatch h
  | some option =>
    simp only [hfind] at h ⊢
    cases htakes : option.takesValue <;> cases given <;> simp only [htakes] at h ⊢
    case false.none =>
      obtain ⟨hnext, rfl⟩ := eq_ok_of_noted h
      obtain ⟨hkept, hwithout⟩ := noteFlag_withoutDryRun hdry hnext
      rw [hwithout]
      exact ⟨hkept, rfl⟩
    case false.some => exact nomatch h
    case true.none =>
      obtain ⟨rfl, rfl⟩ := Prod.mk.inj (Except.ok.inj h)
      exact ⟨hdry, rfl⟩
    case true.some =>
      obtain ⟨hnext, rfl⟩ := eq_ok_of_noted h
      obtain ⟨hkept, hwithout⟩ := note_withoutDryRun hdry hnext
      rw [hwithout]
      exact ⟨hkept, rfl⟩

theorem readArguments_withoutDryRun {arguments : List String} (hdry : settings.has .dryRun = true)
    (h : readArguments subcommand settings pending arguments = .ok read) :
    read.has .dryRun = true ∧
      readArguments subcommand settings.withoutDryRun pending arguments
        = .ok read.withoutDryRun := by
  induction arguments generalizing settings pending with
  | nil =>
    cases pending with
    | none =>
      obtain rfl := Except.ok.inj h
      exact ⟨hdry, rfl⟩
    | some option => exact nomatch h
  | cons argument rest ih =>
    cases pending with
    | some option =>
      unfold readArguments at h ⊢
      cases hshape : shape argument <;> simp only [hshape] at h ⊢
      case plain =>
        obtain ⟨next, hnext, hrest⟩ := exists_of_bind_eq_ok h
        obtain ⟨hkept, hwithout⟩ := note_withoutDryRun hdry hnext
        rw [hwithout]
        exact ih hkept hrest
      all_goals exact nomatch h
    | none =>
      unfold readArguments at h ⊢
      cases hshape : shape argument <;> simp only [hshape] at h ⊢
      case plain =>
        obtain ⟨next, hnext, hrest⟩ := exists_of_bind_eq_ok h
        obtain ⟨hkept, hwithout⟩ := readPlain_withoutDryRun hdry hnext
        rw [hwithout]
        exact ih hkept hrest
      case separator => exact foldlM_readPlain_withoutDryRun hdry h
      case long name value =>
        obtain ⟨⟨next, waiting⟩, hnext, hrest⟩ := exists_of_bind_eq_ok h
        obtain ⟨hkept, hwithout⟩ := readLong_withoutDryRun hdry hnext
        rw [hwithout]
        exact ih hkept hrest
      case letters cs =>
        obtain ⟨⟨next, waiting⟩, hnext, hrest⟩ := exists_of_bind_eq_ok h
        obtain ⟨hkept, hwithout⟩ := readLetters_withoutDryRun hdry hnext
        rw [hwithout]
        exact ih hkept hrest

end After

/-! ## The flag -/

def dryRunFlag : String := "--dry-run"

theorem shape_dryRunFlag : shape dryRunFlag = .long Opt.dryRun.long none := by decide

section Flag

variable {subcommand : Subcommand} {settings read : Settings} {pending : Option Opt}
  {front back : List String}

/-- Only `generate` knows of dry runs, and it notes them. -/
theorem readLong_dryRun
    (h : readLong (.subcommand subcommand) settings Opt.dryRun.long none = .ok (read, pending)) :
    subcommand = .generate ∧ pending = none ∧ read.has .dryRun = true ∧
      read.withoutDryRun = settings := by
  cases subcommand with
  | list => exact nomatch h
  | completions => exact nomatch h
  | generate =>
    have hnoted : (do return (← note settings .dryRun "", none)) = Except.ok (read, pending) := h
    obtain ⟨hnext, rfl⟩ := eq_ok_of_noted hnoted
    obtain ⟨-, hcount, rfl⟩ := note_eq_ok hnext
    have hnew : settings.has .dryRun = false := by simpa [Opt.mayRepeat] using hcount
    exact ⟨rfl, rfl, by simp [Settings.has], Settings.withoutDryRun_note_dryRun hnew ""⟩

/-- Where nothing is an option, the flag is a mistake. -/
theorem foldlM_readPlain_dryRun :
    (front ++ dryRunFlag :: back).foldlM (readPlain subcommand) settings ≠ .ok read := by
  intro h
  induction front generalizing settings with
  | nil =>
    obtain ⟨next, hnext, -⟩ := exists_of_bind_eq_ok h
    have hnone : Shell.ofName? dryRunFlag = none := by decide
    unfold readPlain at hnext
    rw [hnone] at hnext
    split at hnext
    case h_1 => contradiction
    case h_2 => exact nomatch hnext
  | cons argument rest ih =>
    obtain ⟨next, -, hrest⟩ := exists_of_bind_eq_ok h
    exact ih hrest

/-- A flag among the arguments after a subcommand. -/
theorem readArguments_dryRun
    (h : readArguments subcommand settings pending (front ++ dryRunFlag :: back) = .ok read) :
    subcommand = .generate ∧ read.has .dryRun = true ∧
      readArguments subcommand settings pending (front ++ back) = .ok read.withoutDryRun := by
  induction front generalizing settings pending with
  | nil =>
    rw [List.nil_append] at h
    unfold readArguments at h
    cases pending with
    | some option =>
      simp only [shape_dryRunFlag] at h
      exact nomatch h
    | none =>
      simp only [shape_dryRunFlag] at h
      obtain ⟨⟨next, waiting⟩, hnext, hrest⟩ := exists_of_bind_eq_ok h
      obtain ⟨hgenerate, rfl, hdry, rfl⟩ := readLong_dryRun hnext
      obtain ⟨hkept, hwithout⟩ := readArguments_withoutDryRun hdry hrest
      exact ⟨hgenerate, hkept, hwithout⟩
  | cons argument rest ih =>
    rw [List.cons_append] at h ⊢
    unfold readArguments at h ⊢
    cases pending <;> cases hshape : shape argument <;> simp only [hshape] at h ⊢
    case none.separator => exact absurd h foldlM_readPlain_dryRun
    case some.long | some.letters | some.separator => exact nomatch h
    all_goals
      obtain ⟨next, hnext, hrest⟩ := exists_of_bind_eq_ok h
      rw [hnext]
      exact ih hrest

/-- What a dry run is asked for, and what the same run without the flag. -/
theorem request_dryRun (hdry : settings.has .dryRun = true) :
    ∃ path options,
      request .generate settings = .ok (.generate path options.toStandardOutput) ∧
      request .generate settings.withoutDryRun = .ok (.generate path options) := by
  refine ⟨settings.snapshot, {
    output := (settings.values .output).head?
    overwrite := settings.has .overwrite
    mode := settings.mode
    tables := settings.values .table }, ?_, ?_⟩
  · rw [request, hdry, if_pos rfl]
    rfl
  · unfold request Settings.snapshot Settings.mode
    simp only [Settings.has_dryRun_withoutDryRun, Bool.false_eq_true, if_false]
    rw [Settings.values_withoutDryRun (by decide), Settings.values_withoutDryRun (by decide),
      Settings.values_withoutDryRun (by decide), Settings.values_withoutDryRun (by decide),
      Settings.has_withoutDryRun (by decide)]

end Flag

/-- **A command line for a dry run means what it means without the flag**, but for the output,
which is left to the standard output. -/
theorem parse_dryRun {front back : List String} {request : Request}
    (h : parse (front ++ dryRunFlag :: back) = .ok request) :
    ∃ path options, request = .generate path options.toStandardOutput ∧
      parse (front ++ back) = .ok (.generate path options) := by
  induction front with
  | nil => exact nomatch h
  | cons argument rest ih =>
    rw [List.cons_append] at h ⊢
    unfold parse at h ⊢
    cases hshape : shape argument <;> simp only [hshape] at h ⊢
    case separator => exact nomatch h
    case plain =>
      by_cases hhelp : argument = "help"
      · rw [if_pos hhelp] at h
        exact nomatch h
      · rw [if_neg hhelp] at h ⊢
        cases hname : Subcommand.ofName? argument with
        | none =>
          rw [hname] at h
          exact nomatch h
        | some subcommand =>
          simp only [hname] at h ⊢
          obtain ⟨read, hread, hrequest⟩ := exists_of_bind_eq_ok h
          obtain ⟨rfl, hdry, hwithout⟩ := readArguments_dryRun hread
          rw [hwithout]
          obtain ⟨path, options, hdryRequest, hrequest'⟩ := request_dryRun hdry
          rw [hdryRequest] at hrequest
          exact ⟨path, options, (Except.ok.inj hrequest).symm, hrequest'⟩
    all_goals
      obtain ⟨next, hnext, hrest⟩ := exists_of_bind_eq_ok h
      rw [hnext]
      exact ih hrest

end Arguments

end Ambient
