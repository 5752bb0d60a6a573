import Parley.Proofs.Text.Numeral
import Parley.Proofs.Text.Pieces
import Parley.Session.Input

/-!
# Changing a setting

What a text does to a setting. A text that is no value for it changes nothing and is reported with
the setting and the text (`fault_of_set`). Any other text changes this setting alone (`sameBut_set`),
and what is shown of the setting then is a value that stands for what it is (`set_get`). The exit
words are what is listed between commas, without blanks around it (`mem_parseExitWords_iff`,
`isExitWord_iff`).

`set_changes` says what this means for a command of a session that sets a setting.
-/

set_option autoImplicit false

namespace Parley

namespace Settings

/-- The settings agree in everything but the named one. -/
structure SameBut (setting : Setting) (s s' : Settings) : Prop where
  exitWords : setting ≠ .exitWords → s'.exitWords = s.exitWords
  streamDelay : setting ≠ .streamDelay → s'.streamDelay = s.streamDelay
  confirmClear : setting ≠ .confirmClear → s'.confirmClear = s.confirmClear
  logDir : s'.logDir = s.logDir

/-! ## Each setting -/

/-- The text lists `word` between commas, with blanks around it or not. -/
def Lists (value word : String) : Prop :=
  ∃ piece : String, Text.IsPieceOf ',' value.toList piece.toList ∧
    (∃ c ∈ piece.toList, Text.isBlank c = false) ∧ word = Text.trim piece

theorem mem_parseExitWords_iff {value word : String} :
    word ∈ parseExitWords value ↔ Lists value word := by
  have hblank : ∀ piece : String,
      (!(Text.trim piece).isEmpty) = true ↔ ∃ c ∈ piece.toList, Text.isBlank c = false := by
    intro piece
    rw [Text.isEmpty_trim, Bool.not_eq_true', ← Bool.not_eq_true, List.all_eq_true]
    push Not
    simp only [ne_eq, Bool.not_eq_true]
  rw [parseExitWords, List.mem_filter, List.mem_map]
  constructor
  · rintro ⟨⟨piece, hpiece, rfl⟩, hword⟩
    exact ⟨piece, Text.mem_splitOnChar_iff.1 hpiece, (hblank piece).1 hword, rfl⟩
  · rintro ⟨piece, hpiece, hword, rfl⟩
    exact ⟨⟨piece, Text.mem_splitOnChar_iff.2 hpiece, rfl⟩, (hblank piece).2 hword⟩

/-- The words that a text lists are listed by what is shown of them. -/
theorem parseExitWords_intercalate {value : String} (h : parseExitWords value ≠ []) :
    parseExitWords (",".intercalate (parseExitWords value)) = parseExitWords value := by
  have hwords : ∀ word ∈ parseExitWords value,
      ',' ∉ word.toList ∧ Text.trim word = word ∧ (!word.isEmpty) = true := by
    intro word hword
    refine ⟨?_, ?_, (List.mem_filter.1 hword).2⟩ <;>
      obtain ⟨piece, hpiece, -, rfl⟩ := mem_parseExitWords_iff.1 hword
    · exact fun hcomma => hpiece.1 (Text.mem_of_mem_trim hcomma)
    · exact Text.trim_trim piece
  have hsplit : Text.splitOnChar ',' (",".intercalate (parseExitWords value)) = parseExitWords value :=
    Text.splitOnChar_intercalate h fun word hword => (hwords word hword).1
  conv_lhs => rw [parseExitWords, hsplit]
  rw [List.map_congr_left fun word hword => (hwords word hword).2.1, List.map_id',
    List.filter_eq_self.2 fun word hword => (hwords word hword).2.2]

theorem parseBool?_get (b : Bool) : parseBool? (if b then "true" else "false") = some b := by
  cases b <;> rfl

/-! ## What setting a value does -/

variable {s s' : Settings} {setting : Setting} {value : String}

/-- What is set is what the text denotes. -/
inductive Sets (s : Settings) (value : String) : Setting → Settings → Prop
  | exitWords (h : parseExitWords value ≠ []) :
    Sets s value .exitWords { s with exitWords := parseExitWords value }
  | streamDelay {n : Nat} (h : Text.readNumeral delayBound value = .ok n) :
    Sets s value .streamDelay { s with streamDelay := n }
  | confirmClear {b : Bool} (h : parseBool? value = some b) :
    Sets s value .confirmClear { s with confirmClear := b }

theorem sets_of_set (h : s.set setting value = .ok s') : s.Sets value setting s' := by
  cases setting with
  | exitWords =>
    simp only [set] at h
    split at h
    · cases h
    · next hne =>
      cases h
      exact .exitWords hne
  | streamDelay =>
    simp only [set] at h
    split at h
    · next hread =>
      cases h
      exact .streamDelay hread
    · cases h
  | confirmClear =>
    simp only [set] at h
    split at h
    · next hread =>
      cases h
      exact .confirmClear hread
    · cases h

theorem Sets.set (h : s.Sets value setting s') : s.set setting value = .ok s' := by
  cases h with
  | exitWords h =>
    obtain ⟨word, words, hwords⟩ := List.exists_cons_of_ne_nil h
    simp only [Settings.set, hwords]
  | streamDelay h => simp only [Settings.set, h]
  | confirmClear h => simp only [Settings.set, h]

/-- A text that is no value is reported, with the setting that it is no value for. -/
theorem fault_of_set {e : InvalidValue} (h : s.set setting value = .error e) :
    e.setting = setting ∧ e.value = value := by
  cases setting <;>
    · simp only [Settings.set] at h
      split at h
      all_goals
        cases h
        try exact ⟨rfl, rfl⟩

theorem sameBut_set (h : s.set setting value = .ok s') : s.SameBut setting s' := by
  cases sets_of_set h with
  | exitWords => exact ⟨fun hne => absurd rfl hne, fun _ => rfl, fun _ => rfl, rfl⟩
  | streamDelay => exact ⟨fun _ => rfl, fun hne => absurd rfl hne, fun _ => rfl, rfl⟩
  | confirmClear => exact ⟨fun _ => rfl, fun _ => rfl, fun hne => absurd rfl hne, rfl⟩

/-- **What is shown of a setting that has been set** stands for what it is. -/
theorem set_get (h : s.set setting value = .ok s') : s'.set setting (s'.get setting) = .ok s' := by
  apply Sets.set
  cases sets_of_set h with
  | exitWords hne =>
    have hwords := parseExitWords_intercalate hne
    have hshown : parseExitWords (",".intercalate (parseExitWords value)) ≠ [] := by rwa [hwords]
    have hagain := Sets.exitWords (s := { s with exitWords := parseExitWords value }) hshown
    rwa [hwords] at hagain
  | streamDelay hread =>
    exact .streamDelay (Text.readNumeral_toString
      (Text.lt_of_readNumeral (Nat.pow_pos (by decide)) hread))
  | confirmClear => exact .confirmClear (parseBool?_get _)

/-- **The exit words that have been set** are those that the text lists, and it lists one. -/
theorem isExitWord_iff (h : s.set .exitWords value = .ok s') :
    (∃ word, Lists value word) ∧
      ∀ line, s'.isExitWord line = true ↔ Lists value (Text.trim line) := by
  cases sets_of_set h with
  | exitWords hne =>
    obtain ⟨word, words, hwords⟩ := List.exists_cons_of_ne_nil hne
    have hword : word ∈ parseExitWords value := hwords ▸ List.mem_cons_self
    refine ⟨⟨word, mem_parseExitWords_iff.1 hword⟩, fun line => ?_⟩
    rw [isExitWord, List.contains_iff_mem, mem_parseExitWords_iff]

end Settings

/-! ## In a session -/

/-- **Setting a value.** A command that sets a setting does so in one turn. A text that is no value
leaves the whole world as it is, and the command is told which setting and which text it was. Any
other text changes the settings and nothing else, and of the settings only the one that was named;
what is shown of that one afterwards is a value again, which changes nothing. The exit words are then
the words that the text lists between commas, of which there is at least one: a line is an exit word
exactly if it is one of these, blanks around both left out. -/
theorem set_changes (w : World) (setting : Setting) (value : String)
    (next : Option InvalidValue → Script) (caller : CommandCaller) :
    let s := w.shared.settings
    let turned := Stage.turn (.commanding (.change setting value next) caller) w
    (∀ e, s.set setting value = .error e →
      turned = (w, .commanding (next (some e)) caller) ∧ e.setting = setting ∧ e.value = value) ∧
    ∀ s', s.set setting value = .ok s' →
      turned = (Stage.withSettings s' w, .commanding (next none) caller) ∧
      s.SameBut setting s' ∧
      s'.set setting (s'.get setting) = .ok s' ∧
      (setting = .exitWords → (∃ word, Settings.Lists value word) ∧
        ∀ line, s'.isExitWord line = true ↔ Settings.Lists value (Text.trim line)) := by
  intro s turned
  refine ⟨fun e he => ⟨?_, Settings.fault_of_set he⟩, fun s' hs => ⟨?_, ?_, ?_, ?_⟩⟩
  · simp only [turned, Stage.turn, Stage.command, show w.shared.settings.set _ _ = _ from he]
  · simp only [turned, Stage.turn, Stage.command, show w.shared.settings.set _ _ = _ from hs]
  · exact Settings.sameBut_set hs
  · exact Settings.set_get hs
  · rintro rfl
    exact Settings.isExitWord_iff hs

/-- Three pieces, one of them blank, with blanks of two kinds around the words. -/
theorem set_changes_two_words :
    let s : Settings := { confirmClear := false }
    let value := " bye ,	,　see you　"
    let s' : Settings := { s with exitWords := ["bye", "see you"] }
    s.set .exitWords value = .ok s' ∧ s'.set .exitWords "bye,see you" = .ok s' ∧
      Settings.Lists value (Text.trim "see you ") ∧ ¬Settings.Lists value (Text.trim "") := by
  intro s value s'
  have hset : s.set .exitWords value = .ok s' := by decide +kernel
  obtain ⟨-, hchanges⟩ := set_changes { shared := { settings := s } } .exitWords value
    (fun _ => .finish) .alone
  obtain ⟨-, -, hget, hexit⟩ := hchanges s' hset
  refine ⟨hset, hget, ((hexit rfl).2 _).1 (by decide +kernel), fun h => ?_⟩
  exact absurd (((hexit rfl).2 _).2 h) (by decide +kernel)

end Parley
