import Mathlib.Control.Monad.Basic
import Parley.Proofs.Files.Removal
import Parley.Settings.Upkeep

/-!
# What a reset brings back

A reset removes the settings file that is in use. For a file that was asked for, that brings back the
defaults. Otherwise there may be another file: without the project's file, the settings are those in
the user's file (`loadSettings_resetFile`), and they need not be the defaults
(`reset_uncovers_settings`).
-/

set_option autoImplicit false

namespace Parley

variable {p : Places} {files files' : Files.Tree} {path other : String} {explicit : Option String}

/-! ## Loading -/

namespace Settings

theorem load_of_not_holds (h : files.holds path = false) : load files path = .ok {} := by
  rw [load, h, if_neg Bool.false_ne_true]

/-- Where the same is found, the same is loaded. -/
theorem load_congr (h : ∀ found, files'.find path = .ok found ↔ files.find path = .ok found) :
    load files' path = load files path := by
  cases hfind : files.find path with
  | ok found =>
    have hfind' := (h found).2 hfind
    simp only [load, Files.Tree.holds, Files.Tree.readText, Files.Tree.read, hfind, hfind']
  | error f =>
    have hnone : files.holds path = false := by rw [Files.Tree.holds, hfind]
    have hnone' : files'.holds path = false := by
      unfold Files.Tree.holds
      split
      · next hfind' => cases hfind.symm.trans ((h _).1 hfind')
      · rfl
    rw [load_of_not_holds hnone, load_of_not_holds hnone']

end Settings

/-! ## Resetting -/

namespace Upkeep

/-- **A reset that succeeds** leaves no file there, and makes no difference to any other. -/
theorem find_resetFile_eq_ok_iff (h : (resetFile files path).result = .ok ())
    {found : Files.Location × Files.Entry} :
    (resetFile files path).files.find other = .ok found ↔
      files.find other = .ok found ∧ files.find other ≠ files.find path := by
  unfold resetFile at h ⊢
  split
  · next hholds =>
    rw [if_pos hholds] at h
    split at h
    · next hremove => exact Files.Tree.find_remove_eq_ok_iff hremove
    · cases h
  · next hholds =>
    refine (and_iff_left_of_imp fun hfind heq => hholds ?_).symm
    rw [Files.Tree.holds, ← heq, hfind]

/-- What the reset has removed is gone. -/
theorem holds_resetFile (h : (resetFile files path).result = .ok ())
    (hsame : files.find other = files.find path) :
    (resetFile files path).files.holds other = false := by
  unfold Files.Tree.holds
  split
  · next hfind => exact absurd hsame ((find_resetFile_eq_ok_iff h).1 hfind).2
  · rfl

theorem holds_of_holds_resetFile (h : (resetFile files path).result = .ok ())
    (hholds : (resetFile files path).files.holds other = true) : files.holds other = true := by
  unfold Files.Tree.holds at hholds
  split at hholds
  · next hfind => rw [Files.Tree.holds, ((find_resetFile_eq_ok_iff h).1 hfind).1]
  · cases hholds

/-- Other settings stay as they are. -/
theorem load_resetFile (h : (resetFile files path).result = .ok ())
    (hother : files.find other ≠ files.find path) :
    Settings.load (resetFile files path).files other = Settings.load files other :=
  Settings.load_congr fun _ => (find_resetFile_eq_ok_iff h).trans (and_iff_left hother)

end Upkeep

namespace Places

/-- Without the project's file the user's is used. -/
theorem loadSettings_of_no_project (h : files.holds p.project = false) :
    p.loadSettings files none = (p.user.map (Settings.load files)).getD (.ok {}) := by
  unfold loadSettings discover
  rw [List.filter_cons_of_neg (by simp [h])]
  cases p.user with
  | none => rfl
  | some user =>
    cases hholds : files.holds user with
    | true =>
      rw [Option.toList_some, List.filter_cons_of_pos hholds]
      rfl
    | false =>
      rw [Option.toList_some, List.filter_cons_of_neg (by simp [hholds])]
      exact (Settings.load_of_not_holds hholds).symm

/-- The user's file if the project has a file of its own, which hides it. -/
def hidden? (p : Places) (files : Files.Tree) : Option String :=
  if files.holds p.project then
    p.user.filter fun user => files.find user ≠ files.find p.project
  else none

/-- The file in use is the project's, or the user's if the project has none. -/
theorem settingsPath_none_eq_ok_iff : p.settingsPath files none = .ok path ↔
    if files.holds p.project then path = p.project else p.user = some path := by
  unfold settingsPath discover
  cases hproject : files.holds p.project with
  | true =>
    rw [List.filter_cons_of_pos hproject, if_pos rfl]
    exact ⟨fun h => (Except.ok.inj h).symm, fun h => h ▸ rfl⟩
  | false =>
    rw [List.filter_cons_of_neg (by simp [hproject]), if_neg Bool.false_ne_true]
    cases p.user with
    | none => simp
    | some user =>
      cases huser : files.holds user <;> simp [huser]

/-- The file of the project is gone after a reset without a choice: it is the one removed, or it was
not there. -/
theorem not_holds_project_of_reset (hpath : p.settingsPath files none = .ok path)
    (hreset : (Upkeep.resetFile files path).result = .ok ()) :
    (Upkeep.resetFile files path).files.holds p.project = false := by
  rw [settingsPath_none_eq_ok_iff] at hpath
  split at hpath
  · subst hpath
    exact Upkeep.holds_resetFile hreset rfl
  · next hproject =>
    exact Bool.eq_false_iff.2 fun h => hproject (Upkeep.holds_of_holds_resetFile hreset h)

/-- The user's settings after a reset without a choice are those in the file that was hidden. -/
theorem load_user_of_reset {user : String} (huser : p.user = some user)
    (hpath : p.settingsPath files none = .ok path)
    (hreset : (Upkeep.resetFile files path).result = .ok ()) :
    Settings.load (Upkeep.resetFile files path).files user =
      ((p.hidden? files).map (Settings.load files)).getD (.ok {}) := by
  rw [settingsPath_none_eq_ok_iff] at hpath
  rw [hidden?, huser]
  split at hpath
  · next hproject =>
    subst hpath
    rw [if_pos hproject, Option.filter_some]
    split
    · next hother => exact Upkeep.load_resetFile hreset (of_decide_eq_true hother)
    · next hsame =>
      have hfind : files.find user = files.find p.project := by simpa using hsame
      exact Settings.load_of_not_holds (Upkeep.holds_resetFile hreset hfind)
  · next hproject =>
    cases huser.symm.trans hpath
    rw [if_neg hproject]
    exact Settings.load_of_not_holds (Upkeep.holds_resetFile hreset rfl)

/-- **The settings after a reset** are those in the user's file if it was hidden by the project's file
and no other file was asked for, and the defaults otherwise. -/
theorem loadSettings_resetFile (hpath : p.settingsPath files explicit = .ok path)
    (hreset : (Upkeep.resetFile files path).result = .ok ()) :
    p.loadSettings (Upkeep.resetFile files path).files explicit =
      match explicit, p.hidden? files with
      | none, some user => Settings.load files user
      | _, _ => .ok {} := by
  cases explicit with
  | some asked =>
    cases hpath
    exact Settings.load_of_not_holds (Upkeep.holds_resetFile hreset rfl)
  | none =>
    rw [loadSettings_of_no_project (not_holds_project_of_reset hpath hreset)]
    cases huser : p.user with
    | none => simp [hidden?, huser]
    | some user =>
      rw [Option.map_some, Option.getD_some, load_user_of_reset huser hpath hreset]
      cases p.hidden? files <;> rfl

/-- **A reset brings back the defaults** unless it brings to light other settings. What it removes is
gone; the settings are those in the user's file if the project's file hid it and no file was asked
for, and the defaults otherwise. So they are the defaults exactly if no hidden file holds others. -/
theorem reset_defaults_iff (hpath : p.settingsPath files explicit = .ok path)
    (hreset : (Upkeep.resetFile files path).result = .ok ()) :
    (Upkeep.resetFile files path).files.holds path = false ∧
      (p.loadSettings (Upkeep.resetFile files path).files explicit =
        match explicit, p.hidden? files with
        | none, some user => Settings.load files user
        | _, _ => .ok {}) ∧
      (p.loadSettings (Upkeep.resetFile files path).files explicit = .ok {} ↔
        (explicit = none →
          ∀ user, p.hidden? files = some user → Settings.load files user = .ok {})) := by
  refine ⟨Upkeep.holds_resetFile hreset rfl, loadSettings_resetFile hpath hreset, ?_⟩
  rw [loadSettings_resetFile hpath hreset]
  cases explicit with
  | some asked => simp
  | none => cases p.hidden? files <;> simp

/-- A project with an empty settings file. The user's own file has another delay. -/
def twoFiles : Files.Tree where
  entries :=
    [([".switchboard"], .directory), ([".switchboard", "config.toml"], .file []),
      (["xdg"], .directory), (["xdg", "switchboard"], .directory),
      (["xdg", "switchboard", "config.toml"], .file (Text.toBytes "stream_delay_ms = 7\n"))]

/-- The places of a user whose directory for settings is `xdg`. -/
def userPlaces : Places := .ofDirectories (some "xdg") none

/-- The user asks for the file that is hidden. -/
theorem reset_defaults_iff_asked :
    let path := "xdg/switchboard/config.toml"
    userPlaces.settingsPath twoFiles (some path) = .ok path ∧
      (Upkeep.resetFile twoFiles path).result = .ok () ∧
      (Upkeep.resetFile twoFiles path).files.holds path = false ∧
      userPlaces.loadSettings (Upkeep.resetFile twoFiles path).files (some path) = .ok {} := by
  intro path
  have hpath : userPlaces.settingsPath twoFiles (some path) = .ok path := rfl
  have hreset : (Upkeep.resetFile twoFiles path).result = .ok () := by decide +kernel
  obtain ⟨hgone, -, hdefaults⟩ := reset_defaults_iff hpath hreset
  exact ⟨hpath, hreset, hgone, hdefaults.2 nofun⟩

/-- **A reset may bring back other settings than the defaults**: the project's file is removed, and
then the delay is the one in the user's file. -/
theorem reset_uncovers_settings :
    let path := ".switchboard/config.toml"
    userPlaces.settingsPath twoFiles none = .ok path ∧
      (Upkeep.resetFile twoFiles path).result = .ok () ∧
      userPlaces.loadSettings (Upkeep.resetFile twoFiles path).files none =
        .ok { streamDelay := 7 } ∧
      userPlaces.loadSettings (Upkeep.resetFile twoFiles path).files none ≠ .ok {} := by
  decide +kernel

end Places
end Parley
