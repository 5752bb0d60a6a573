import Parley.Proofs.Files.Write
import Parley.Proofs.Settings.Document
import Parley.Settings.Store

/-!
# Settings that are saved

Settings that have been saved are loaded again as they were (`load_saved`). A document that could not
be made is not written, and no file changes (`read_saveDocument_error`).
-/

set_option autoImplicit false

namespace Parley.Settings

section
variable {ε : Type} {fault : StoreFault → ε} {files files' : Files.Tree} {path : String}

theorem read_writeDocument {text : String}
    (h : writeDocument fault (.ok text) files path = (files', .ok ())) :
    files'.read path = .ok (Text.toBytes text) := by
  unfold writeDocument at h
  split at h
  · cases h
  · next heq =>
    cases heq
    split at h
    · next hwrite =>
      cases h
      exact Files.Tree.read_write hwrite
    · cases h

/-- A document that has been saved is in its file. -/
theorem readText_saveDocument {text : String}
    (h : saveDocument fault (.ok text) files path = (files', .ok ())) :
    files'.holds path = true ∧ files'.readText path = .ok text := by
  have hread : files'.read path = .ok (Text.toBytes text) := by
    unfold saveDocument at h
    split at h
    · exact read_writeDocument h
    · split at h
      · exact read_writeDocument h
      · cases h
  refine ⟨Files.Tree.holds_of_read hread, ?_⟩
  rw [Files.Tree.readText, hread]
  simp only [Text.ofBytes?_toBytes]

/-- Without a document nothing is written. -/
theorem read_saveDocument_error (e : ε) {other : String} {content : List UInt8}
    (h : files.read other = .ok content) :
    (saveDocument fault (.error e) files path).1.read other = .ok content := by
  unfold saveDocument
  split
  · exact h
  · next parent _ =>
    have hread := Files.Tree.read_makeDirectories parent h
    split
    · next hmake => rw [hmake] at hread; exact hread
    · next hmake => rw [hmake] at hread; exact hread

theorem saveDocument_error (e : ε) :
    ∃ e', (saveDocument fault (.error e) files path).2 = .error e' := by
  unfold saveDocument
  split
  · exact ⟨_, rfl⟩
  · split
    · exact ⟨_, rfl⟩
    · exact ⟨_, rfl⟩

end

/-- **Saved settings load back, and a save without a document loses nothing.** Where settings have
been saved, the same settings are loaded, whatever characters their texts have. If the document could
not be made, the save fails, and every file keeps its content. -/
theorem load_saved :
    (∀ (s : Settings) (files files' : Files.Tree) (path : String), s.streamDelay < delayBound →
      s.save files path = (files', .ok ()) → load files' path = .ok s) ∧
    ∀ (ε : Type) (fault : StoreFault → ε) (e : ε) (files : Files.Tree) (path : String),
      (∃ e', (saveDocument fault (.error e) files path).2 = .error e') ∧
      ∀ (other : String) (content : List UInt8), files.read other = .ok content →
        (saveDocument fault (.error e) files path).1.read other = .ok content := by
  refine ⟨fun s files files' path hdelay hsave => ?_, fun ε fault e files path =>
    ⟨saveDocument_error e, fun other content => read_saveDocument_error e⟩⟩
  obtain ⟨hholds, htext⟩ := readText_saveDocument hsave
  rw [load, if_pos hholds, htext]
  simp only [parse_render hdelay]

/-- Texts with quotes of both kinds, backslashes, commas, line ends and control characters, and the
longest delay, in a file whose directory has to be made. -/
theorem load_saved_hard_texts :
    let s : Settings :=
      { exitWords := ["\"\"\"'''", "a, b\\\"", "\r\n\x00\x7f", ""], streamDelay := 18446744073709551615
        confirmClear := false, logDir := some "C:\\logs\n'new'" }
    let files : Files.Tree := { entries := [(["old.toml"], .file [0x61])] }
    (∃ files', s.save files "nested/config.toml" = (files', .ok ()) ∧
      load files' "nested/config.toml" = .ok s) ∧
    (saveDocument (fun _ => ()) (.error ()) files "old.toml").1.read "old.toml" = .ok [0x61] := by
  intro s files
  have hsave : s.save files "nested/config.toml" =
      ((s.save files "nested/config.toml").1, .ok ()) := by
    exact Prod.ext rfl (by rfl)
  exact ⟨⟨_, hsave, load_saved.1 s files _ _ (by decide) hsave⟩,
    (load_saved.2 Unit (fun _ => ()) () files "old.toml").2 "old.toml" [0x61] (by decide)⟩

end Parley.Settings
